import Restack.Access
import Restack.Class.Description

namespace Restack

-- A description as text.

def FieldValue.text : FieldValue → String
  | .int value => intText value
  | .long value => longText value ++ "L"
  | .float bits => floatText Decimal.valueLayout bits ++ "F"
  | .double bits => doubleText Decimal.valueLayout bits ++ "D"
  | .string value => Text.quoted value

def charOfCode (code : Nat) : Char := if code.isValidChar then Char.ofNat code else '?'

def Leaf.text : Leaf → String
  | .byte value => toString value.toInt ++ "B"
  | .short value => toString value.toInt ++ "S"
  | .char value => Text.quotedChar (charOfCode value.toNat)
  | .int value => intText value
  | .long value => longText value ++ "L"
  | .float bits => floatText Decimal.valueLayout bits ++ "F"
  | .double bits => doubleText Decimal.valueLayout bits ++ "D"
  | .boolean value => if value then "true" else "false"
  | .string value => Text.quoted value
  | .classLiteral descriptor => descriptor ++ ".class"

namespace Listing

def nameText : Option String → String
  | none => ""
  | some name => name ++ "="

mutual

def annotPart : AnnotPart → String
  | .value name leaf => nameText name ++ leaf.text
  | .enum name type constant => nameText name ++ type ++ "." ++ constant
  | .nested name type body => nameText name ++ "@" ++ type ++ "(" ++ ", ".intercalate (annotBody body) ++ ")"
  | .array name items => nameText name ++ "\x7b" ++ ", ".intercalate (annotBody items) ++ "\x7d"

def annotBody : Option (List AnnotPart) → List String
  | none => []
  | some parts => annotParts parts

def annotParts : List AnnotPart → List String
  | [] => []
  | part :: rest => annotPart part :: annotParts rest

end

def annot (indent : String) (a : AnnotDescription) : String :=
  indent ++ "@" ++ a.type ++ "(" ++ ", ".intercalate (annotBody a.body) ++
    (if a.visible then ")\n" else ") // invisible\n")

-- An interface is called one in place of a class, so the word is no modifier here.
def modifierWords (access : UInt16) (method : Bool) : List String :=
  (Access.modifiers access method).filter (· ≠ "interface")

def modifierText (access : UInt16) (method : Bool) : String :=
  String.join ((modifierWords access method).map (· ++ " "))

def signatureLine (indent : String) : Option String → String
  | none => ""
  | some signature => indent ++ "// signature " ++ signature ++ "\n"

def orNull (text : Option String) : String := text.getD "null"

def codePart : CodePart → String
  | .tryBlock b =>
    "    TRYCATCHBLOCK " ++ b.start.text ++ " " ++ b.stop.text ++ " " ++ b.handler.text ++ " " ++
      orNull b.catchType ++ "\n"
  | .label label => "   " ++ label.text ++ "\n"
  | .insn insn => "    " ++ insn.text ++ "\n"
  | .line number label => "    LINENUMBER " ++ toString number ++ " " ++ label.text ++ "\n"
  | .localVar v =>
    let signature := match v.signature with
      | none => ""
      | some signature => " // signature " ++ signature
    "    LOCALVARIABLE " ++ v.name ++ " " ++ v.desc ++ " " ++ v.start.text ++ " " ++ v.stop.text ++ " " ++
      toString v.slot ++ signature ++ "\n"

def methodPart : MethodPart → String
  | .default body => "    default=" ++ ", ".intercalate (annotBody body) ++ "\n"
  | .annot a => annot "    " a
  | .parameter index a => "    // parameter " ++ toString index ++ "\n" ++ annot "    " a
  | .code body => String.join ((body.getD []).map codePart)

def field (f : FieldHeader) : String :=
  let value := match f.value with
    | none => ""
    | some value => " = " ++ value.text
  "\n" ++ signatureLine "  " f.signature ++ "  " ++ modifierText f.access false ++ f.desc ++ " " ++ f.name ++
    value ++ "\n"

def method (m : MethodHeader) : String :=
  let thrown := if m.exceptions.isEmpty then "" else " throws " ++ " ".intercalate m.exceptions
  "\n" ++ signatureLine "  " m.signature ++ "  " ++ modifierText m.access true ++ m.name ++ m.desc ++ thrown ++ "\n"

def classPart : ClassPart → String
  | .source file => "  // source: " ++ file ++ "\n"
  | .outer o => "  OUTERCLASS " ++ o.owner ++ " " ++ orNull o.name ++ " " ++ orNull o.desc ++ "\n"
  | .annot a => annot "  " a
  | .inner i =>
    "  INNERCLASS " ++ i.name ++ " " ++ orNull i.outerName ++ " " ++ orNull i.innerName ++ " " ++
      " ".intercalate (modifierWords i.access false) ++ "\n"
  | .field header annots => field header ++ String.join ((annots.getD []).map (annot "    "))
  | .method header body => method header ++ String.join ((body.getD []).map methodPart)

def header (h : ClassHeader) : String :=
  let word := if Access.has h.access Access.isInterface then "interface" else "class"
  let parent := match h.superName with
    | none => ""
    | some name => " extends " ++ name
  let interfaces := if h.interfaces.isEmpty then "" else " implements " ++ ", ".intercalate h.interfaces
  "// class version " ++ toString h.version.toNat ++ "\n" ++ signatureLine "" h.signature ++
    modifierText h.access false ++ word ++ " " ++ h.name ++ parent ++ interfaces ++ " \x7b\n"

end Listing

def ClassDescription.text (d : ClassDescription) : String :=
  Listing.header d.header ++ String.join (d.parts.map Listing.classPart) ++ "\x7d\n"

end Restack
