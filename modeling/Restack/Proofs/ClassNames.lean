import Mathlib
import Restack.Proofs.Loader

namespace Restack

-- The names that a loader lists, against the names that it finds classes by. A listed name is a descriptor that was
-- trimmed, and a name is wrapped into a descriptor to find it.

theorem range_mapM_eq_ok {f : Nat → Except ε β} {n : Nat} {results : List β} :
    (List.range n).mapM f = .ok results ↔ results.length = n ∧ ∀ i b, results[i]? = some b → f i = .ok b := by
  rw [mapM_eq_ok,List.forall₂_iff_get]
  simp only [List.length_range,List.get_eq_getElem,List.getElem_range,List.getElem?_eq_some_iff]
  constructor
  · rintro ⟨same,each⟩
    exact ⟨same.symm,fun i b ⟨below,here⟩ => here ▸ each i (same ▸ below) below⟩
  · rintro ⟨same,each⟩
    exact ⟨same.symm,fun i _ below => each i _ ⟨below,rfl⟩⟩

namespace Loader

theorem trimmed_wrapped (name : String) :
    trimmed (classDescriptor name) = String.ofList ((name.toList.dropWhile (· = 'L')).rdropWhile (· = ';')) := by
  have spelled : (classDescriptor name).toList = 'L' :: (name.toList ++ [';']) := by simp [classDescriptor]
  have front : (name.toList ++ [';']).dropWhile (· = 'L') = name.toList.dropWhile (· = 'L') ++ [';'] := by
    rw [List.dropWhile_append]
    split
    · rename_i none
      rw [List.isEmpty_iff.mp none]
      rfl
    · rfl
  have all : trimmed (classDescriptor name) =
      String.ofList (((classDescriptor name).toList.dropWhile (· = 'L')).rdropWhile (· = ';')) := rfl
  rw [all,spelled,List.dropWhile_cons_of_pos (by simp),front,List.rdropWhile_concat_pos _ _ _ (by simp)]

-- Nothing may be trimmed at either end, since what is gone at one end does not come back at the other.
theorem trimmed_eq_iff (name : String) :
    trimmed (classDescriptor name) = name ↔ name.toList.head? ≠ some 'L' ∧ name.toList.getLast? ≠ some ';' := by
  have front : name.toList.dropWhile (· = 'L') = name.toList ↔ name.toList.head? ≠ some 'L' := by
    cases name.toList <;> simp [List.dropWhile_eq_self_iff]
  have back : name.toList.rdropWhile (· = ';') = name.toList ↔ name.toList.getLast? ≠ some ';' := by
    rw [List.rdropWhile_eq_self_iff]
    cases name.toList <;> simp [List.getLast?_eq_some_getLast]
  rw [trimmed_wrapped,← String.toList_inj,String.toList_ofList,← front,← back]
  constructor
  · intro same
    have first := (List.dropWhile_suffix (· = 'L') (l := name.toList)).length_le
    have last := (List.rdropWhile_prefix (· = ';') (name.toList.dropWhile (· = 'L'))).length_le
    rw [same] at last
    have whole := (List.dropWhile_suffix (· = 'L') (l := name.toList)).eq_of_length (first.antisymm last)
    rw [whole] at same
    exact ⟨whole,same⟩
  · intro kept
    rw [kept.1,kept.2]

end Loader

namespace Container

variable {bytes : Bytes} {c : Container} {i : Nat}

def Readable (c : Container) : Prop := ∀ i < c.classes.size, ∃ d, c.classDef i = .ok d

theorem descriptors_length (c : Container) : c.descriptors.length = c.classes.size := by
  rw [descriptors,List.length_map,Array.length_toList]

theorem Opened.descriptor_listed (opened : Opened bytes c) {d : ClassDef} (told : c.classDef i = .ok d) :
    c.descriptors[i]? = some d.descriptor := by
  have stored := opened.class_ok.mp told
  obtain ⟨row,found,named⟩ := opened.class_named.mp ⟨stored.below,stored.descriptor⟩
  rw [descriptors,List.getElem?_map,Array.getElem?_toList,found,Option.map_some,named]

theorem Opened.namesIn_ok (opened : Opened bytes c) {names : List String} :
    Loader.namesIn c = .ok names ↔ c.Readable ∧ names = c.descriptors.map Loader.trimmed := by
  have bare : Loader.namesIn c = .ok names ↔ ((List.range c.classes.size).mapM fun i => do
      return Loader.trimmed (← c.classDef i).descriptor : Except Fault (List String)) = .ok names := by
    rw [Loader.namesIn]
    cases ((List.range c.classes.size).mapM fun i => do
      return Loader.trimmed (← c.classDef i).descriptor : Except Fault (List String)) <;> simp [Except.mapError]
  have each : ∀ i name, (do return Loader.trimmed (← c.classDef i).descriptor : Except Fault String) = .ok name ↔
      (∃ d, c.classDef i = .ok d) ∧ c.descriptors[i]?.map Loader.trimmed = some name := by
    intro i name
    rw [bind_eq_ok]
    constructor
    · rintro ⟨d,told,named⟩
      exact ⟨⟨d,told⟩,by rw [opened.descriptor_listed told,Option.map_some,pure_eq_ok.mp named]⟩
    · rintro ⟨⟨d,told⟩,named⟩
      rw [opened.descriptor_listed told,Option.map_some] at named
      exact ⟨d,told,pure_eq_ok.mpr (Option.some.inj named)⟩
  rw [bare,range_mapM_eq_ok]
  simp only [each]
  constructor
  · rintro ⟨size,named⟩
    constructor
    · intro i below
      exact (named i _ (List.getElem?_eq_getElem (size ▸ below))).1
    · apply List.ext_getElem (by rw [size,List.length_map,descriptors_length])
      intro i below inside
      have here := (named i _ (List.getElem?_eq_getElem below)).2
      rw [← List.getElem?_map,List.getElem?_eq_getElem inside] at here
      exact (Option.some.inj here).symm
  · rintro ⟨readable,rfl⟩
    refine ⟨by rw [List.length_map,descriptors_length],?_⟩
    intro i name here
    have below : i < c.classes.size := by
      rw [← descriptors_length,← List.length_map]
      exact (List.getElem?_eq_some_iff.mp here).1
    exact ⟨readable i below,by rw [← List.getElem?_map,here]⟩

end Container

namespace Loader

variable {zip : ZipReader} {sources : List Source} {settings : Settings} {files : Files} {containers : List Container}

-- The containers of sources that can all be opened, whatever reads the archives among them.
def Opens (zip : ZipReader) (files : Files) (settings : Settings) (sources : List Source) (containers : List Container) : Prop :=
  List.Forall₂ (fun source c => source.container zip files settings = .ok c) sources containers

theorem container_opened {source : Source} {c : Container} (opens : source.container zip files settings = .ok c) :
    ∃ bytes, Container.Opened bytes c := by
  unfold Source.container at opens
  cases read : source.bytes zip files settings with
  | error fault =>
    rw [read] at opens
    cases opens
  | ok bytes =>
    rw [read] at opens
    cases done : Container.ofBytes bytes with
    | error fault =>
      simp only [bind,Except.bind,done] at opens
      cases opens
    | ok found =>
      simp only [bind,Except.bind,done] at opens
      cases opens
      exact ⟨bytes,Container.ofBytes_ok done⟩

theorem Opens.index (opens : Opens zip files settings sources containers) :
    Loader.index { zip, sources, settings } files = (.ok containers,{ zip, sources, settings, containers := some containers }) := by
  rw [Loader.index,mapM_eq_ok.mpr opens]

theorem Opens.opened (opens : Opens zip files settings sources containers) : ∀ c ∈ containers, ∃ bytes, Container.Opened bytes c :=
  forall₂_right (fun _ _ => container_opened) opens

theorem namesIn_all {names : List (List String)} (opened : ∀ c ∈ containers, ∃ bytes, Container.Opened bytes c) :
    containers.mapM namesIn = .ok names ↔
      (∀ c ∈ containers, c.Readable) ∧ names = containers.map fun c => c.descriptors.map trimmed := by
  rw [mapM_eq_ok]
  induction containers generalizing names with
  | nil => simp
  | cons first rest ih =>
    obtain ⟨⟨bytes,here⟩,others⟩ := List.forall_mem_cons.mp opened
    rw [List.forall₂_cons_left_iff]
    simp only [here.namesIn_ok,ih others,List.forall_mem_cons,List.map_cons]
    constructor
    · rintro ⟨_,_,⟨readable,rfl⟩,⟨later,rfl⟩,rfl⟩
      exact ⟨⟨readable,later⟩,rfl⟩
    · rintro ⟨⟨readable,later⟩,rfl⟩
      exact ⟨_,_,⟨readable,rfl⟩,⟨later,rfl⟩,rfl⟩

theorem Opens.classNames_ok (opens : Opens zip files settings sources containers) {names : List String} :
    (classNames { zip, sources, settings } files).1 = .ok names ↔
      (∀ c ∈ containers, c.Readable) ∧ names = (containers.flatMap Container.descriptors).map trimmed := by
  have answer : (classNames { zip, sources, settings } files).1 = (containers.mapM namesIn).map List.flatten := by
    rw [classNames_eq,opens.index]
    change (containers.mapM namesIn >>= fun names => pure names.flatten) = _
    cases containers.mapM namesIn <;> rfl
  have flat : (containers.map fun c => c.descriptors.map trimmed).flatten = (containers.flatMap Container.descriptors).map trimmed := by
    rw [← List.flatMap_def,List.map_flatMap]
  rw [answer,← flat]
  cases told : containers.mapM namesIn with
  | error fault =>
    have unreadable : ¬∀ c ∈ containers, c.Readable := by
      intro readable
      have done := (namesIn_all opens.opened).mpr ⟨readable,rfl⟩
      rw [told] at done
      cases done
    simp [Except.map,unreadable]
  | ok lists =>
    obtain ⟨readable,rfl⟩ := (namesIn_all opens.opened).mp told
    simp only [Except.map,Except.ok.injEq,iff_true_intro readable,true_and,eq_comm]

theorem Opens.load_defined (opens : Opens zip files settings sources containers) {name : String}
    (defined : classDescriptor name ∈ containers.flatMap Container.descriptors) (later : Files) (missing : String) :
    (load { zip, sources, settings } files name).1 ≠ .error (.classNotFound missing) ∧
      (load (classNames { zip, sources, settings } files).2 later name).1 ≠ .error (.classNotFound missing) := by
  obtain ⟨c,member,inside⟩ := List.mem_flatMap.mp defined
  have found : describeIn settings .everything name containers ≠ .error (.classNotFound missing) := by
    intro none
    obtain ⟨bytes,opened⟩ := opens.opened c member
    exact opened.findClass_none_iff.mp ((describeIn_missing.mp none).2 c member) inside
  have told : (describeIn settings .everything name containers).map ClassNode.ofDescription ≠ .error (.classNotFound missing) := by
    cases answer : describeIn settings .everything name containers with
    | error fault =>
      rw [answer] at found
      simpa [Except.map] using found
    | ok d => simp [Except.map]
  constructor
  · rw [load,define_answer,opens.index]
    exact told
  · rw [classNames_eq,opens.index,load,define_answer]
    exact told

end Loader

open Loader (Opens classNames load trimmed)

theorem listed_names_trimmed (zip : ZipReader) (sources : List Source) (settings : Settings) (files : Files) (containers : List Container)
    (opens : Opens zip files settings sources containers) :
    (∀ names, (classNames { zip, sources, settings } files).1 = .ok names ↔
      (∀ c ∈ containers, c.Readable) ∧ names = (containers.flatMap Container.descriptors).map trimmed) ∧
    ∀ (n : Nat) (name : String), (containers.flatMap Container.descriptors)[n]? = some (classDescriptor name) →
      (∀ names, (classNames { zip, sources, settings } files).1 = .ok names →
        (names[n]? = some name ↔ name.toList.head? ≠ some 'L' ∧ name.toList.getLast? ≠ some ';')) ∧
      ∀ later missing, (load { zip, sources, settings } files name).1 ≠ .error (.classNotFound missing) ∧
        (load (classNames { zip, sources, settings } files).2 later name).1 ≠ .error (.classNotFound missing) := by
  refine ⟨fun names => opens.classNames_ok,?_⟩
  intro n name defined
  refine ⟨?_,fun later => opens.load_defined (List.mem_of_getElem? defined) later⟩
  intro names listed
  obtain ⟨-,rfl⟩ := opens.classNames_ok.mp listed
  rw [List.getElem?_map,defined,Option.map_some,Option.some.injEq]
  exact Loader.trimmed_eq_iff name

-- The classes A, Lib and B. The second begins like a descriptor, and the third is in an archive.
def letterSources : List Source :=
  [.memory (soleDefinition [0x41] 1),.memory (soleDefinition [0x4c,0x69,0x62] 1),.archive "b.jar"]

-- Whatever is in a file, B is in it.
def onlyB : ZipReader := fun _ =>
  .ok { names := ["classes.dex"], byName := fun _ => .ok ⟨0x9d,.ok (soleDefinition [0x42] 1)⟩ }

def letters : Loader := { zip := onlyB, sources := letterSources }

theorem letters_listed :
    ∃ containers names, Opens onlyB (fun _ => .ok #[]) {} letterSources containers ∧
      containers.flatMap Container.descriptors = [classDescriptor "A",classDescriptor "Lib",classDescriptor "B"] ∧
      (classNames letters fun _ => .ok #[]).1 = .ok names := by
  have told : ((letterSources.mapM fun (source : Source) => source.container onlyB (fun _ => .ok #[]) {}).toOption.map fun containers =>
      containers.flatMap Container.descriptors) = some [classDescriptor "A",classDescriptor "Lib",classDescriptor "B"] := by decide +kernel
  have answered : (classNames letters fun _ => .ok #[]).1.toOption.isSome = true := by decide +kernel
  obtain ⟨containers,opened,defined⟩ := Option.map_eq_some_iff.mp told
  obtain ⟨names,listed⟩ := Option.isSome_iff_exists.mp answered
  exact ⟨containers,names,mapM_eq_ok.mp (toOption_eq_some.mp opened),defined,toOption_eq_some.mp listed⟩

theorem listed_names_trimmed_letters :
    ∃ containers names, Opens onlyB (fun _ => .ok #[]) {} letterSources containers ∧
      (containers.flatMap Container.descriptors)[1]? = some (classDescriptor "Lib") ∧
      (containers.flatMap Container.descriptors)[2]? = some (classDescriptor "B") ∧
      (classNames letters fun _ => .ok #[]).1 = .ok names ∧ names[1]? ≠ some "Lib" ∧ names[2]? = some "B" ∧
      ∀ missing, (load letters (fun _ => .ok #[]) "Lib").1 ≠ .error (.classNotFound missing) := by
  obtain ⟨containers,names,opens,defined,listed⟩ := letters_listed
  have second : (containers.flatMap Container.descriptors)[1]? = some (classDescriptor "Lib") := by rw [defined]; rfl
  have third : (containers.flatMap Container.descriptors)[2]? = some (classDescriptor "B") := by rw [defined]; rfl
  have answers := (listed_names_trimmed onlyB letterSources {} (fun _ => .ok #[]) containers opens).2
  refine ⟨containers,names,opens,second,third,listed,?_,((answers 2 "B" third).1 names listed).mpr (by decide),
    fun missing => ((answers 1 "Lib" second).2 (fun _ => .ok #[]) missing).1⟩
  intro same
  exact absurd rfl (((answers 1 "Lib" second).1 names listed).mp same).1

-- The name that is listed for Lib is the name of no class.
theorem listed_name_missing :
    ∃ containers names, Opens onlyB (fun _ => .ok #[]) {} letterSources containers ∧
      (containers.flatMap Container.descriptors)[1]? = some (classDescriptor "Lib") ∧
      (classNames letters fun _ => .ok #[]).1 = .ok names ∧ names[1]? = some "ib" ∧
      (load letters (fun _ => .ok #[]) "ib").1 = .error (.classNotFound "ib") := by
  obtain ⟨containers,names,opens,defined,listed⟩ := letters_listed
  have second : names[1]? = some "ib" := by
    obtain ⟨-,rfl⟩ := opens.classNames_ok.mp listed
    rw [defined]
    decide +kernel
  refine ⟨containers,names,opens,by rw [defined]; rfl,listed,second,?_⟩
  rw [load,Loader.define_answer,letters,opens.index]
  have missing : Loader.describeIn {} .everything "ib" containers = .error (.classNotFound "ib") := by
    refine Loader.describeIn_missing.mpr ⟨rfl,fun c member => ?_⟩
    obtain ⟨bytes,opened⟩ := opens.opened c member
    refine opened.findClass_none_iff.mpr fun inside => ?_
    have among := List.mem_flatMap.mpr ⟨c,member,inside⟩
    rw [defined] at among
    revert among
    decide
  change (Loader.describeIn {} .everything "ib" containers).map ClassNode.ofDescription = _
  rw [missing]
  rfl

end Restack
