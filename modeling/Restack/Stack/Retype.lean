import Restack.Fault

namespace Restack

-- A placeholder is emitted in its int (or long) form while the type of its
-- register is open, and is changed into its final form once the type is known.

def Constant.retype? (value : Constant) (kind : Kind) : Option Constant :=
  match value, kind with
  | .int value, .int => some (.int value)
  | .long value, .long => some (.long value)
  | .int value, .float => some (.float value.toUInt32)
  | .long value, .double => some (.double value.toUInt64)
  | .int value, .reference => if value = 0 then some .null else none
  | _, _ => none

-- Ints compare as they stand, references only for being the same.
def Condition.retype? (condition : Condition) (kind : Kind) : Option Condition :=
  match condition, kind with
  | condition, .int => some condition
  | .zero .eq, .reference => some .null
  | .zero .ne, .reference => some .nonNull
  | .ints .eq, .reference => some .sameReference
  | .ints .ne, .reference => some .otherReference
  | _, _ => none

namespace Insn

-- Only instructions of the same width take each other's place.
def retypeSlot (rebuilt : Kind → Insn) (held kind : Kind) (type : Descriptor) : Except Fault Insn :=
  if held.isWide = kind.isWide then .ok (rebuilt kind) else refuse (.slotWidth held type)

def retype (i : Insn) (type : Descriptor) : Except Fault Insn :=
  match type.kind? with
  | none => refuse .groupIsVoid
  | some kind =>
    match i with
    | .load held slot => retypeSlot (.load · slot) held kind type
    | .store held slot => retypeSlot (.store · slot) held kind type
    | .const value =>
      match value.retype? kind with
      | some value => .ok (.const value)
      | none => refuse (.constantUse value type)
    | .jump condition target =>
      match condition.retype? kind with
      | some condition => .ok (.jump condition target)
      | none => refuse (.branchUse condition type)
    | _ => refuse (.notRetypeable i)

end Insn

end Restack
