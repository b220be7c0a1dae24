import Restack.Code

namespace Restack

-- A class is described part by part, in the order of a class file. Whoever is
-- told may be uninterested in some parts; their bodies are then left out, and
-- nothing is looked up for them.

inductive Leaf where
  | byte (value : Int8)
  | short (value : Int16)
  | char (value : UInt16)
  | int (value : Int32)
  | long (value : Int64)
  | float (bits : UInt32)
  | double (bits : UInt64)
  | boolean (value : Bool)
  | string (value : String)
  | classLiteral (descriptor : String)
deriving DecidableEq, Repr

inductive FieldValue where
  | int (value : Int32)
  | long (value : Int64)
  | float (bits : UInt32)
  | double (bits : UInt64)
  | string (value : String)
deriving DecidableEq, Repr

inductive AnnotPart where
  | value (name : Option String) (leaf : Leaf)
  | enum (name : Option String) (type constant : String)
  | nested (name : Option String) (type : String) (body : Option (List AnnotPart))
  | array (name : Option String) (items : Option (List AnnotPart))

structure AnnotDescription where
  type : String
  visible : Bool
  body : Option (List AnnotPart)

structure ClassHeader where
  version : UInt16
  access : UInt16
  name : String
  signature : Option String
  superName : Option String
  interfaces : List String
deriving DecidableEq, Repr

structure OuterClass where
  owner : String
  name : Option String
  desc : Option String
deriving DecidableEq, Repr

structure InnerClass where
  name : String
  outerName : Option String
  innerName : Option String
  access : UInt16
deriving DecidableEq, Repr

structure FieldHeader where
  access : UInt16
  name : String
  desc : String
  signature : Option String
  value : Option FieldValue
deriving DecidableEq, Repr

structure MethodHeader where
  access : UInt16
  name : String
  desc : String
  signature : Option String
  exceptions : List String
deriving DecidableEq, Repr

inductive CodePart where
  | tryBlock (block : TryBlock)
  | label (label : Label)
  | insn (insn : Insn)
  | line (number : Nat) (label : Label)
  | localVar (var : LocalVar)
deriving DecidableEq

inductive MethodPart where
  | default (body : Option (List AnnotPart))
  | annot (annot : AnnotDescription)
  | parameter (index : Nat) (annot : AnnotDescription)
  | code (body : Option (List CodePart))

inductive ClassPart where
  | source (file : String)
  | outer (outer : OuterClass)
  | annot (annot : AnnotDescription)
  | inner (inner : InnerClass)
  | field (header : FieldHeader) (annots : Option (List AnnotDescription))
  | method (header : MethodHeader) (body : Option (List MethodPart))

structure ClassDescription where
  header : ClassHeader
  parts : List ClassPart

structure Interest where
  classAnnots : Bool := true
  fieldAnnots : Bool := true
  methodAnnots : Bool := true
  parameterAnnots : Bool := true
  defaults : Bool := true
  nested : Bool := true
  arrays : Bool := true
  fields : Bool := true
  methods : Bool := true
  code : Bool := true
deriving DecidableEq, Repr

namespace Interest

def everything : Interest := {}

def nothing : Interest := ⟨false, false, false, false, false, false, false, false, false, false⟩

def body {α : Type} (wanted : Bool) (found : Except Fault α) : Except Fault (Option α) :=
  if wanted then found.map some else .ok none

end Interest

namespace Code

-- The events in order, after some labels were placed. The lines of a label follow its first
-- placement, and lines of labels that were not placed come last.
def eventParts (lines : List (Nat × Label)) : List Label → List Event → List CodePart
  | placed, [] => (lines.filter fun line => !placed.contains line.2).map fun line => .line line.1 line.2
  | placed, .label l :: rest =>
    let here := if placed.contains l then [] else lines.filter fun line => line.2 = l
    .label l :: here.map (fun line => .line line.1 line.2) ++ eventParts lines (l :: placed) rest
  | placed, .insn i :: rest => .insn i :: eventParts lines placed rest

def parts (c : Code) : List CodePart :=
  c.tryBlocks.map .tryBlock ++ eventParts c.lines [] c.events ++ c.locals.map .localVar

def tryBlock? : CodePart → Option TryBlock
  | .tryBlock b => some b
  | _ => none

def event? : CodePart → Option Event
  | .label l => some (.label l)
  | .insn i => some (.insn i)
  | _ => none

def line? : CodePart → Option (Nat × Label)
  | .line number label => some (number, label)
  | _ => none

def localVar? : CodePart → Option LocalVar
  | .localVar v => some v
  | _ => none

def ofParts (parts : List CodePart) : Code where
  tryBlocks := parts.filterMap tryBlock?
  events := parts.filterMap event?
  lines := parts.filterMap line?
  locals := parts.filterMap localVar?

end Code

end Restack
