import Mathlib
import Restack.Loader
import Restack.Proofs.ClassIndex
import Restack.Proofs.Class.Layout

namespace Restack

-- What a loader finds in its containers, one after the other.

def classDescriptor (name : String) : String := "L" ++ name ++ ";"

namespace Container

variable {c : Container} {settings : Settings} {w : Interest} {d : String} {i : Nat}

def descriptors (c : Container) : List String := c.classes.toList.map fun row => typeName c.strings c.types row.type.toNat

theorem Opened.findClass_none_iff {bytes : Bytes} (opened : Opened bytes c) : c.findClass d = .ok none ↔ d ∉ c.descriptors := by
  have listed : d ∈ c.descriptors ↔ ∃ i, ClassNamed bytes i d := by
    simp only [descriptors,opened.class_named,List.mem_map,Array.mem_toList_iff,Array.mem_iff_getElem?]
    constructor
    · rintro ⟨row,⟨i,found⟩,same⟩
      exact ⟨i,row,found,same⟩
    · rintro ⟨i,row,found,same⟩
      exact ⟨row,⟨i,found⟩,same⟩
  rw [opened.findClass_none,listed]

theorem describeClass_absent (settings : Settings) (w : Interest) (absent : c.findClass d = .ok none) : c.describeClass settings w d = .ok none := by
  rw [describeClass,absent]
  rfl

theorem describeClass_found (settings : Settings) (w : Interest) (found : c.findClass d = (c.classDef i).map some) :
    c.describeClass settings w d = (c.classDef i >>= c.describe settings w).map some := by
  rw [describeClass,found]
  cases c.classDef i with
  | error fault => rfl
  | ok d => cases told : c.describe settings w d <;> simp [Except.map,bind,Except.bind,told,pure,Except.pure]

theorem describeClass_none_iff : c.describeClass settings w d = .ok none ↔ c.findClass d = .ok none := by
  constructor
  · intro none
    rw [describeClass,bind_eq_ok] at none
    obtain ⟨found,here,told⟩ := none
    cases found with
    | none => exact here
    | some d =>
      simp only [bind_eq_ok,pure_eq_ok] at told
      obtain ⟨_,-,impossible⟩ := told
      cases impossible
  · exact describeClass_absent settings w

end Container

namespace Loader

variable {settings : Settings} {w : Interest} {name : String} {c : Container} {before containers : List Container} {i : Nat}

theorem describeIn_cons :
    describeIn settings w name (c :: containers) = match c.describeClass settings w (classDescriptor name) with
      | .error fault => .error (.container fault)
      | .ok (some description) => .ok description
      | .ok none => describeIn settings w name containers := rfl

theorem describeIn_skip (absent : ∀ c ∈ before, c.findClass (classDescriptor name) = .ok none) :
    describeIn settings w name (before ++ containers) = describeIn settings w name containers := by
  induction before with
  | nil => rfl
  | cons first rest ih =>
    obtain ⟨here,others⟩ := List.forall_mem_cons.mp absent
    rw [List.cons_append,describeIn_cons,Container.describeClass_absent settings w here]
    exact ih others

theorem describeIn_found (found : c.findClass (classDescriptor name) = (c.classDef i).map some) :
    describeIn settings w name (c :: containers) = (c.classDef i >>= c.describe settings w).mapError .container := by
  rw [describeIn_cons,Container.describeClass_found settings w found]
  cases c.classDef i >>= c.describe settings w <;> rfl

theorem describeIn_missing {missing : String} :
    describeIn settings w name containers = .error (.classNotFound missing) ↔
      missing = name ∧ ∀ c ∈ containers, c.findClass (classDescriptor name) = .ok none := by
  induction containers with
  | nil => simp [describeIn,eq_comm]
  | cons first rest ih =>
    rw [List.forall_mem_cons,← Container.describeClass_none_iff,describeIn_cons]
    cases first.describeClass settings w (classDescriptor name) with
    | error fault => simp
    | ok told =>
      cases told with
      | none => simpa using ih
      | some description => simp

-- Calls see the sources through the index only.

theorem define_answer (l : Loader) (files : Files) (w : Interest) (write : ClassDescription → α) (name : String) :
    (l.define files w write name).1 = ((l.index files).1 >>= describeIn (l.index files).2.settings w name).map write := rfl

theorem classNames_eq (l : Loader) (files : Files) :
    l.classNames files = ((l.index files).1 >>= fun containers => containers.mapM namesIn >>= fun names => pure names.flatten,
      (l.index files).2) := rfl

end Loader

-- A file with one class, by its name.
def soleDefinition (name : List UInt8) (flags : Nat) : Bytes :=
  let words (numbers : List Nat) := numbers.flatMap (lowBytes 4)
  ([0x64,0x65,0x78,0x0a, 0x30,0x33,0x35,0] ++ List.replicate 24 0 ++ words [name.length + 0x9c,0x70,0x12345678,0,0,0] ++
    words [1,0x70, 1,0x74, 0,0, 0,0, 0,0, 1,0x78, 0,0] ++ words [0x98] ++ words [0] ++
    words [0,flags,0xffffffff,0,0xffffffff,0,0,0] ++ [UInt8.ofNat (name.length + 2),0x4c] ++ name ++ [0x3b,0]).toArray

end Restack
