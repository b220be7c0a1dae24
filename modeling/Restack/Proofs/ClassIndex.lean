import Mathlib
import Restack.Proofs.Bytes.Written
import Restack.Proofs.Container.Answers
import Restack.Proofs.Container.Opening

namespace Restack

-- Classes are found by their descriptor, whichever type and string a definition names it by. The index that opening
-- fills binds a descriptor to the one definition that has it, so no two definitions of an accepted container have one
-- descriptor.

def ClassNamed (bytes : Bytes) (i : Nat) (descriptor : String) : Prop :=
  i < Table.classes.count bytes ∧ TypeAt bytes (Table.classes.entry bytes i 0 4) descriptor

namespace Container.Opened

variable {bytes : Bytes} {c : Container} {i j : Nat} {d : String}

theorem type_named {index : UInt32} (below : index.toNat < c.types.size) : c.type index = .ok (typeName c.strings c.types index.toNat) := by
  obtain ⟨text,found⟩ := row_below below
  rw [type,row_ok.mpr found,ok_bind]
  rfl

theorem class_named (opened : Opened bytes c) :
    ClassNamed bytes i d ↔ ∃ row, c.classes[i]? = some row ∧ typeName c.strings c.types row.type.toNat = d := by
  obtain ⟨size,each⟩ := opened.class_rows
  have named : ∀ row, c.classes[i]? = some row →
      (TypeAt bytes (Table.classes.entry bytes i 0 4) d ↔ typeName c.strings c.types row.type.toNat = d) := by
    intro row found
    obtain ⟨words,below,-⟩ := each i row found
    have place : row.type.toNat = Table.classes.entry bytes i 0 4 := words.type
    rw [← place,← opened.type_ok,type_named below,Except.ok.injEq]
  constructor
  · intro stored
    obtain ⟨row,found⟩ := row_below (size.symm ▸ stored.1)
    exact ⟨row,found,(named row found).mp stored.2⟩
  · intro kept
    obtain ⟨row,found,same⟩ := kept
    exact ⟨size ▸ (Array.getElem?_eq_some_iff.mp found).1,(named row found).mpr same⟩

theorem class_there (opened : Opened bytes c) (below : i < Table.classes.count bytes) : ∃ d, ClassNamed bytes i d := by
  obtain ⟨row,found⟩ := row_below (opened.class_rows.1.symm ▸ below)
  exact ⟨_,opened.class_named.mpr ⟨row,found,rfl⟩⟩

theorem classIndex_some (opened : Opened bytes c) : c.classIndex.get? d = some i ↔ ClassNamed bytes i d :=
  (opened.class_index.1 d i).trans opened.class_named.symm

theorem class_unique (opened : Opened bytes c) (one : ClassNamed bytes i d) (two : ClassNamed bytes j d) : i = j := by
  have bound := opened.classIndex_some.mpr one
  rw [opened.classIndex_some.mpr two] at bound
  exact (Option.some.inj bound).symm

theorem findClass_named (opened : Opened bytes c) (named : ClassNamed bytes i d) : c.findClass d = (c.classDef i).map some := by
  rw [findClass,opened.classIndex_some.mpr named]

theorem findClass_none (opened : Opened bytes c) : c.findClass d = .ok none ↔ ¬∃ i, ClassNamed bytes i d := by
  constructor
  · intro none named
    obtain ⟨i,named⟩ := named
    rw [opened.findClass_named named] at none
    cases told : c.classDef i with
    | error fault =>
      rw [told] at none
      cases none
    | ok found =>
      rw [told] at none
      cases none
  · intro absent
    have index : c.classIndex.get? d = none := by
      rw [Option.eq_none_iff_forall_not_mem]
      intro i found
      exact absent ⟨i,opened.classIndex_some.mp found⟩
    rw [findClass,index]

end Container.Opened

theorem classes_found_by_descriptor (bytes : Bytes) :
    (∀ c, Container.ofBytes bytes = .ok c →
      (∀ i < Table.classes.count bytes, ∃ d, ClassNamed bytes i d ∧ ∀ e, ClassNamed bytes i e → e = d) ∧
      (∀ i j d, ClassNamed bytes i d → ClassNamed bytes j d → i = j) ∧
      (∀ i d, c.classIndex.get? d = some i ↔ ClassNamed bytes i d) ∧
      (∀ i d, ClassNamed bytes i d → c.findClass d = (c.classDef i).map some) ∧
      (∀ d, c.findClass d = .ok none ↔ ¬∃ i, ClassNamed bytes i d) ∧
      ∀ i found, c.classDef i = .ok found → ClassNamed bytes i found.descriptor) ∧
    ∀ i j d, i ≠ j → ClassNamed bytes i d → ClassNamed bytes j d →
      ∃ fault cause, Container.ofBytes bytes = .error fault ∧ fault.cause = .malformed cause := by
  constructor
  · intro c done
    have opened := Container.ofBytes_ok done
    refine ⟨?_,fun i j d => opened.class_unique,fun i d => opened.classIndex_some,fun i d => opened.findClass_named,
      fun d => opened.findClass_none,?_⟩
    · intro i below
      obtain ⟨d,named⟩ := opened.class_there below
      exact ⟨d,named,fun e other => other.2.2.2.unique named.2.2.2⟩
    · intro i found told
      have stored := opened.class_ok.mp told
      exact ⟨stored.below,stored.descriptor⟩
  · intro i j d apart one two
    cases done : Container.ofBytes bytes with
    | ok c => exact absurd ((Container.ofBytes_ok done).class_unique one two) apart
    | error fault =>
      obtain ⟨cause,same⟩ := Container.ofBytes_inContainer bytes fault done
      exact ⟨fault,cause,rfl,same⟩

theorem classNamed_stored {bytes : Bytes} (i type : Nat) {text : Nat} {d : String}
    (row : i < Table.classes.count bytes ∧ Table.classes.entry bytes i 0 4 = type)
    (typed : type < Table.types.count bytes ∧ Table.types.entry bytes type 0 4 = text) (short : text < Table.strings.count bytes)
    (stored : StringStored bytes (Table.strings.entry bytes text 0 4) d) : ClassNamed bytes i d := by
  obtain ⟨below,rfl⟩ := row
  obtain ⟨inside,rfl⟩ := typed
  exact ⟨below,inside,short,stored⟩

-- Two definitions. The first two types have one descriptor, by two strings.
def twoDefinitions (second : Nat) : Bytes :=
  let words (numbers : List Nat) := numbers.flatMap (lowBytes 4)
  let name (text : List UInt8) := UInt8.ofNat text.length :: text ++ [0]
  ([0x64,0x65,0x78,0x0a, 0x30,0x33,0x35,0] ++ List.replicate 24 0 ++ words [0xd2,0x70,0x12345678,0,0,0] ++
    words [3,0x70, 3,0x7c, 0,0, 0,0, 0,0, 2,0x88, 0,0] ++ words [0xc8,0xc8,0xcd] ++ words [0,1,2] ++
    words [0,1,0xffffffff,0,0xffffffff,0,0,0] ++ words [second,1,0xffffffff,0,0xffffffff,0,0,0] ++
    name [0x4c,0x41,0x3b] ++ name [0x4c,0x42,0x3b]).toArray

theorem classes_found_by_descriptor_twoDefinitions :
    (∃ c, Container.ofBytes (twoDefinitions 2) = .ok c ∧ c.findClass "LB;" = (c.classDef 1).map some) ∧
    ∃ fault cause, Container.ofBytes (twoDefinitions 1) = .error fault ∧ fault.cause = .malformed cause := by
  constructor
  · have opens : (Container.ofBytes (twoDefinitions 2)).toBool = true := by decide +kernel
    cases done : Container.ofBytes (twoDefinitions 2) with
    | error fault =>
      rw [done] at opens
      cases opens
    | ok c =>
      have stored : StringStored (twoDefinitions 2) (Table.strings.entry (twoDefinitions 2) 2 0 4) "LB;" :=
        ⟨[3],[0x4c,0x42,0x3b],by decide,by decide,by decide +kernel,by decide +kernel,by decide +kernel⟩
      have named := classNamed_stored 1 2 (by decide +kernel) (by decide +kernel) (by decide +kernel) stored
      exact ⟨c,rfl,((classes_found_by_descriptor (twoDefinitions 2)).1 c done).2.2.2.1 1 "LB;" named⟩
  · have stored : ∀ text < 2, StringStored (twoDefinitions 1) (Table.strings.entry (twoDefinitions 1) text 0 4) "LA;" := fun text small =>
      ⟨[3],[0x4c,0x41,0x3b],by decide,by decide,by revert text; decide +kernel,by decide +kernel,by decide +kernel⟩
    have first := classNamed_stored 0 0 (by decide +kernel) (by decide +kernel) (by decide +kernel) (stored 0 (by decide))
    have second := classNamed_stored 1 1 (by decide +kernel) (by decide +kernel) (by decide +kernel) (stored 1 (by decide))
    exact (classes_found_by_descriptor (twoDefinitions 1)).2 0 1 "LA;" (by decide) first second

end Restack
