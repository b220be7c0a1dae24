import Mathlib
import Restack.Container.Reference
import Restack.Proofs.Outcome
import Restack.Proofs.Descriptor

namespace Restack

-- The texts that are taken for descriptors are those of the grammar, and each of them has one reading. A class name may
-- hold any character but the one that ends it, the marks of the grammar among them.

open Computability

-- The grammar says nothing about what a text is read as.

inductive TypeText : List Char → Prop where
  | array (element : TypeText chars) : TypeText ('[' :: chars)
  | object (named : name ≠ []) (whole : ';' ∉ name) : TypeText ('L' :: (name ++ [';']))
  | primitive (letter : c ∈ ['Z','B','C','S','I','J','F','D','V']) : TypeText [c]

def typeTexts : Language Char := {chars | TypeText chars}

def methodTexts : Language Char := {['(']} * typeTexts∗ * {[')']} * typeTexts

namespace Descriptor

def Named : Descriptor → Prop
  | .array element => element.Named
  | .object className => className ≠ "" ∧ ';' ∉ className.toList
  | _ => True

instance decidableNamed : (type : Descriptor) → Decidable type.Named
  | .array element => decidableNamed element
  | .object className => inferInstanceAs (Decidable (className ≠ "" ∧ ';' ∉ className.toList))
  | .int | .bool | .byte | .char | .short | .long | .float | .double | .void => .isTrue trivial

variable {chars rest : List Char} {type : Descriptor} {name : String} {s : String}

-- What is written is read, whatever follows it.

theorem scanName_written (named : name ≠ "") (whole : ';' ∉ name.toList) (rest : List Char) :
    scanName (name.toList ++ ';' :: rest) = some (name,rest) := by
  have inside : ∀ c ∈ name.toList, decide (c ≠ ';') = true := by
    intro c member
    exact decide_eq_true fun same => whole (same ▸ member)
  have before : (name.toList ++ ';' :: rest).takeWhile (· ≠ ';') = name.toList := by
    rw [List.takeWhile_append_of_pos inside]
    simp
  have after : (name.toList ++ ';' :: rest).dropWhile (· ≠ ';') = ';' :: rest := by
    rw [List.dropWhile_append_of_pos inside]
    simp
  have some : name.toList ≠ [] := fun empty => named (String.toList_eq_nil_iff.mp empty)
  rw [scanName,before,after]
  split
  · contradiction
  · contradiction
  · rename_i same _
    cases same
    rw [String.ofList_toList]

theorem scan_written (named : type.Named) (rest : List Char) : scan (type.text.toList ++ rest) = some (type,rest) := by
  induction type with
  | array element ih =>
    rw [text,String.toList_append,List.append_assoc]
    change scan ('[' :: (element.text.toList ++ rest)) = _
    rw [scan,if_pos rfl,ih named]
    rfl
  | object className =>
    have spelled : (object className).text.toList ++ rest = 'L' :: (className.toList ++ ';' :: rest) := by
      simp [text]
    rw [spelled,scan,if_neg (by decide),if_pos rfl,scanName_written named.1 named.2]
    rfl
  | _ => rfl

-- Names end at the first mark, so what was read has none in it.

theorem scanName_named (found : scanName chars = some (name,rest)) : name ≠ "" ∧ ';' ∉ name.toList := by
  unfold scanName at found
  split at found
  · cases found
  · cases found
  · rename_i _ some
    cases found
    rw [String.toList_ofList]
    refine ⟨fun empty => some (String.ofList_eq_empty_iff.mp empty),fun member => ?_⟩
    exact absurd (List.mem_takeWhile_imp member) (by simp)

theorem scan_named (found : scan chars = some (type,rest)) : type.Named := by
  induction chars generalizing type rest with
  | nil => cases found
  | cons c chars ih =>
    unfold scan at found
    split at found
    · obtain ⟨⟨element,tail⟩,inner,same⟩ := Option.map_eq_some_iff.mp found
      cases same
      exact @ih tail element inner
    · split at found
      · obtain ⟨⟨name,tail⟩,inner,same⟩ := Option.map_eq_some_iff.mp found
        cases same
        exact scanName_named inner
      · obtain ⟨primitive,inner,same⟩ := Option.map_eq_some_iff.mp found
        cases same
        unfold primitive? at inner
        split at inner <;> cases inner <;> trivial

theorem scan_ok : scan chars = some (type,rest) ↔ type.Named ∧ chars = type.text.toList ++ rest := by
  constructor
  · exact fun found => ⟨scan_named found,scan_text found⟩
  · rintro ⟨named,rfl⟩
    exact scan_written named rest

theorem parse_ok : parse? s = some type ↔ type.Named ∧ type.text = s := by
  have whole : parse? s = some type ↔ scan s.toList = some (type,[]) := by
    unfold parse?
    split
    · rename_i scanned
      simp [scanned]
    · rename_i other
      simp only [reduceCtorEq,false_iff]
      exact other type
  rw [whole,scan_ok,List.append_nil,String.toList_inj,eq_comm]

theorem ofText_ok : ofText s = .ok type ↔ type.Named ∧ type.text = s := by
  rw [← parse_ok]
  unfold ofText
  cases parse? s <;> simp

theorem mem_typeTexts : chars ∈ typeTexts ↔ ∃ type : Descriptor, type.Named ∧ type.text.toList = chars := by
  change TypeText chars ↔ _
  constructor
  · intro spelled
    induction spelled with
    | array _ ih =>
      obtain ⟨element,named,rfl⟩ := ih
      exact ⟨.array element,named,by simp [text]⟩
    | @object name named whole =>
      refine ⟨.object (String.ofList name),⟨?_,?_⟩,?_⟩
      · simpa using named
      · simpa using whole
      · simp [text]
    | primitive letter =>
      fin_cases letter
      · exact ⟨.bool,trivial,rfl⟩
      · exact ⟨.byte,trivial,rfl⟩
      · exact ⟨.char,trivial,rfl⟩
      · exact ⟨.short,trivial,rfl⟩
      · exact ⟨.int,trivial,rfl⟩
      · exact ⟨.long,trivial,rfl⟩
      · exact ⟨.float,trivial,rfl⟩
      · exact ⟨.double,trivial,rfl⟩
      · exact ⟨.void,trivial,rfl⟩
  · rintro ⟨type,named,rfl⟩
    induction type with
    | array element ih =>
      rw [text,String.toList_append]
      exact .array (ih named)
    | object className =>
      rw [text,String.toList_append,String.toList_append]
      exact .object (by simpa using named.1) named.2
    | _ => exact .primitive (by decide)

end Descriptor

namespace MethodDescriptor

structure Named (m : MethodDescriptor) : Prop where
  args : ∀ type ∈ m.args, type.Named
  result : m.result.Named

variable {chars rest : List Char} {args : List Descriptor} {m : MethodDescriptor} {s : String} {fuel : Nat}

theorem text_toList (m : MethodDescriptor) :
    m.text.toList = '(' :: (m.args.flatMap (·.text.toList) ++ ')' :: m.result.text.toList) := by
  simp [text,List.flatMap_def,Function.comp_def]

-- The mark that ends the arguments starts no type.
theorem scanArgs_written (room : args.length ≤ fuel) (named : ∀ type ∈ args, type.Named) (rest : List Char) :
    scanArgs fuel (args.flatMap (·.text.toList) ++ ')' :: rest) = (args,')' :: rest) := by
  induction fuel generalizing args with
  | zero =>
    obtain rfl := List.length_eq_zero_iff.mp (Nat.le_zero.mp room)
    rfl
  | succ fuel ih =>
    cases args with
    | nil => rfl
    | cons first others =>
      obtain ⟨here,later⟩ := List.forall_mem_cons.mp named
      rw [List.flatMap_cons,List.append_assoc,scanArgs,Descriptor.scan_written here]
      dsimp only
      rw [ih (Nat.le_of_succ_le_succ room) later]

theorem scanArgs_named (found : scanArgs fuel chars = (args,rest)) : ∀ type ∈ args, type.Named := by
  induction fuel generalizing chars args with
  | zero =>
    cases found
    simp
  | succ fuel ih =>
    unfold scanArgs at found
    split at found
    · cases found
      simp
    · rename_i tail scanned
      cases found
      exact List.forall_mem_cons.mpr ⟨Descriptor.scan_named scanned,@ih tail _ rfl⟩

-- Every type takes a character, so there is room for all of them.
theorem args_room (args : List Descriptor) (rest : List Char) : args.length ≤ (args.flatMap (·.text.toList) ++ rest).length := by
  have each : ∀ type : Descriptor, 1 ≤ type.text.toList.length := by
    intro type
    cases type <;> simp [Descriptor.text]
  induction args with
  | nil => exact Nat.zero_le _
  | cons first others ih =>
    have here := each first
    rw [List.length_append] at ih
    rw [List.flatMap_cons,List.length_append,List.length_append,List.length_cons]
    omega

theorem parse_ok : parse? s = some m ↔ m.Named ∧ m.text = s := by
  constructor
  · intro found
    refine ⟨?_,parse_text found⟩
    unfold parse? at found
    split at found
    · split at found
      · rename_i listed
        split at found
        · rename_i last
          cases found
          exact ⟨scanArgs_named listed,Descriptor.scan_named last⟩
        · cases found
      · cases found
    · cases found
  · rintro ⟨named,rfl⟩
    have last := Descriptor.scan_written named.result []
    rw [List.append_nil] at last
    unfold parse?
    rw [text_toList]
    simp only [scanArgs_written (args_room m.args _) named.args,last]

theorem ofText_ok : ofText s = .ok m ↔ m.Named ∧ m.text = s := by
  rw [← parse_ok]
  unfold ofText
  cases parse? s <;> simp

theorem mem_argTexts : chars ∈ typeTexts∗ ↔
    ∃ args : List Descriptor, (∀ type ∈ args, type.Named) ∧ args.flatMap (·.text.toList) = chars := by
  rw [Language.mem_kstar]
  constructor
  · rintro ⟨parts,rfl,each⟩
    induction parts with
    | nil => exact ⟨[],by simp,rfl⟩
    | cons first others ih =>
      obtain ⟨here,later⟩ := List.forall_mem_cons.mp each
      obtain ⟨type,named,rfl⟩ := Descriptor.mem_typeTexts.mp here
      obtain ⟨args,all,same⟩ := ih later
      exact ⟨type :: args,List.forall_mem_cons.mpr ⟨named,all⟩,by rw [List.flatMap_cons,same,List.flatten_cons]⟩
  · rintro ⟨args,named,rfl⟩
    refine ⟨args.map (·.text.toList),List.flatMap_def,?_⟩
    intro part member
    obtain ⟨type,listed,rfl⟩ := List.mem_map.mp member
    exact Descriptor.mem_typeTexts.mpr ⟨type,named type listed,rfl⟩

theorem mem_methodTexts : chars ∈ methodTexts ↔ ∃ m : MethodDescriptor, m.Named ∧ m.text.toList = chars := by
  simp only [methodTexts,Language.mem_mul,mem_argTexts,Descriptor.mem_typeTexts,text_toList]
  constructor
  · rintro ⟨_,⟨_,⟨_,rfl,_,⟨args,named,rfl⟩,rfl⟩,_,rfl,rfl⟩,_,⟨result,last,rfl⟩,rfl⟩
    exact ⟨⟨args,result⟩,⟨named,last⟩,by simp⟩
  · rintro ⟨m,named,rfl⟩
    exact ⟨_,⟨_,⟨_,rfl,_,⟨m.args,named.args,rfl⟩,rfl⟩,_,rfl,rfl⟩,_,⟨m.result,named.result,rfl⟩,by simp⟩

end MethodDescriptor

theorem descriptors_parse_exactly :
    (∀ s, (∃ type, Descriptor.ofText s = .ok type) ↔ s.toList ∈ typeTexts) ∧
    (∀ s, (∃ m, MethodDescriptor.ofText s = .ok m) ↔ s.toList ∈ methodTexts) ∧
    (∀ s type, Descriptor.ofText s = .ok type → type.text = s) ∧
    (∀ s m, MethodDescriptor.ofText s = .ok m → m.text = s) ∧
    (∀ type : Descriptor, type.Named → Descriptor.ofText type.text = .ok type) ∧
    ∀ m : MethodDescriptor, m.Named → MethodDescriptor.ofText m.text = .ok m := by
  refine ⟨fun s => ?_,fun s => ?_,
    fun s type read => (Descriptor.ofText_ok.mp read).2,fun s m read => (MethodDescriptor.ofText_ok.mp read).2,
    fun type named => Descriptor.ofText_ok.mpr ⟨named,rfl⟩,fun m named => MethodDescriptor.ofText_ok.mpr ⟨named,rfl⟩⟩
  · simp only [Descriptor.ofText_ok,Descriptor.mem_typeTexts,String.toList_inj]
  · simp only [MethodDescriptor.ofText_ok,MethodDescriptor.mem_methodTexts,String.toList_inj]

-- Names made of the marks of the grammar, arrays of arrays and types next to each other.
def markedNames : MethodDescriptor := ⟨[.object ")",.array (.array (.object "(V[")),.long],.array (.object "LL/I)")⟩

theorem descriptors_parse_exactly_markedNames :
    markedNames.Named ∧ markedNames.text = "(L);[[L(V[;J)[LLL/I);" ∧
      MethodDescriptor.ofText "(L);[[L(V[;J)[LLL/I);" = .ok markedNames ∧
      "(L);[[L(V[;J)[LLL/I);".toList ∈ methodTexts ∧ "(L);[[L(V[;J)[LLL/I)".toList ∉ methodTexts := by
  have named : markedNames.Named := ⟨by decide,by decide⟩
  have text : markedNames.text = "(L);[[L(V[;J)[LLL/I);" := by decide +kernel
  obtain ⟨-,methods,-,-,-,read⟩ := descriptors_parse_exactly
  have known := read markedNames named
  rw [text] at known
  refine ⟨named,text,known,(methods _).mp ⟨_,known⟩,fun spelled => ?_⟩
  have refused : (MethodDescriptor.ofText "(L);[[L(V[;J)[LLL/I)").toBool = false := by decide +kernel
  obtain ⟨m,taken⟩ := (methods _).mpr spelled
  rw [taken] at refused
  cases refused

end Restack
