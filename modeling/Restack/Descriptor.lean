namespace Restack

inductive Kind where
  | int | long | float | double | reference
deriving DecidableEq, Repr

namespace Kind

def isWide : Kind → Bool
  | .long | .double => true
  | _ => false

def letter : Kind → String
  | .int => "i"
  | .long => "l"
  | .float => "f"
  | .double => "d"
  | .reference => "a"

def name : Kind → String
  | .int => "Int"
  | .long => "Long"
  | .float => "Float"
  | .double => "Double"
  | .reference => "Reference"

end Kind

inductive ArrayKind where
  | int | long | float | double | reference | byte | char | short
deriving DecidableEq, Repr

namespace ArrayKind

def valueKind : ArrayKind → Kind
  | .long => .long
  | .float => .float
  | .double => .double
  | .reference => .reference
  | .int | .byte | .char | .short => .int

def letter : ArrayKind → String
  | .int => "i"
  | .long => "l"
  | .float => "f"
  | .double => "d"
  | .reference => "a"
  | .byte => "b"
  | .char => "c"
  | .short => "s"

def name : ArrayKind → String
  | .int => "Int"
  | .long => "Long"
  | .float => "Float"
  | .double => "Double"
  | .reference => "Reference"
  | .byte => "Byte"
  | .char => "Char"
  | .short => "Short"

end ArrayKind

inductive Descriptor where
  | array (element : Descriptor)
  | object (className : String)
  | int | bool | byte | char | short | long | float | double | void
deriving DecidableEq, Repr

namespace Descriptor

def text : Descriptor → String
  | .array element => "[" ++ element.text
  | .object className => "L" ++ className ++ ";"
  | .int => "I"
  | .bool => "Z"
  | .byte => "B"
  | .char => "C"
  | .short => "S"
  | .long => "J"
  | .float => "F"
  | .double => "D"
  | .void => "V"

def dotted (className : String) : String :=
  String.ofList (className.toList.map fun c => if c = '/' then '.' else c)

def slashed (className : String) : String :=
  String.ofList (className.toList.map fun c => if c = '.' then '/' else c)

def sourceText : Descriptor → String
  | .array element => element.sourceText ++ "[]"
  | .object className => dotted className
  | .int => "int"
  | .bool => "boolean"
  | .byte => "byte"
  | .char => "char"
  | .short => "short"
  | .long => "long"
  | .float => "float"
  | .double => "double"
  | .void => "void"

-- The name class references use: the internal name of a class, the descriptor of anything else.
def internalName : Descriptor → String
  | .object className => className
  | d => d.text

def isWide : Descriptor → Bool
  | .long | .double => true
  | _ => false

def isReference : Descriptor → Bool
  | .array _ | .object _ => true
  | _ => false

def slots : Descriptor → Nat
  | .void => 0
  | .long | .double => 2
  | _ => 1

def kind? : Descriptor → Option Kind
  | .bool | .byte | .char | .short | .int => some .int
  | .long => some .long
  | .float => some .float
  | .double => some .double
  | .array _ | .object _ => some .reference
  | .void => none

def arrayKind? : Descriptor → Option ArrayKind
  | .bool | .byte => some .byte
  | .char => some .char
  | .short => some .short
  | .int => some .int
  | .long => some .long
  | .float => some .float
  | .double => some .double
  | .array _ | .object _ => some .reference
  | .void => none

def element? : Descriptor → Option Descriptor
  | .array element => some element
  | _ => none

def dimensions : Descriptor → Nat
  | .array element => element.dimensions + 1
  | _ => 0

def primitive? : Char → Option Descriptor
  | 'Z' => some .bool
  | 'B' => some .byte
  | 'C' => some .char
  | 'S' => some .short
  | 'I' => some .int
  | 'J' => some .long
  | 'F' => some .float
  | 'D' => some .double
  | 'V' => some .void
  | _ => none

def scanName (chars : List Char) : Option (String × List Char) :=
  match chars.takeWhile (· ≠ ';'), chars.dropWhile (· ≠ ';') with
  | [], _ => none
  | _, [] => none
  | name, _ :: rest => some (String.ofList name, rest)

def scan : List Char → Option (Descriptor × List Char)
  | [] => none
  | c :: rest =>
    if c = '[' then (scan rest).map fun found => (.array found.1, found.2)
    else if c = 'L' then (scanName rest).map fun found => (.object found.1, found.2)
    else (primitive? c).map fun found => (found, rest)

def parse? (s : String) : Option Descriptor :=
  match scan s.toList with
  | some (d, []) => some d
  | _ => none

end Descriptor

structure MethodDescriptor where
  args : List Descriptor
  result : Descriptor
deriving DecidableEq, Repr

namespace MethodDescriptor

def text (m : MethodDescriptor) : String :=
  "(" ++ String.join (m.args.map Descriptor.text) ++ ")" ++ m.result.text

def argSlots (m : MethodDescriptor) : Nat := m.args.foldr (fun d total => d.slots + total) 0

-- As many types as there are at the start of the characters. Each one takes at least one
-- character, so the number of characters bounds the number of types.
def scanArgs : Nat → List Char → List Descriptor × List Char
  | 0, chars => ([], chars)
  | fuel + 1, chars =>
    match Descriptor.scan chars with
    | none => ([], chars)
    | some (d, rest) =>
      let tail := scanArgs fuel rest
      (d :: tail.1, tail.2)

def parse? (s : String) : Option MethodDescriptor :=
  match s.toList with
  | '(' :: chars =>
    match scanArgs chars.length chars with
    | (args, ')' :: rest) =>
      match Descriptor.scan rest with
      | some (result, []) => some ⟨args, result⟩
      | _ => none
    | _ => none
  | _ => none

end MethodDescriptor

end Restack
