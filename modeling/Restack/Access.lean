namespace Restack.Access

-- Access flags: sixteen bits as class files keep them, and how the wider flags
-- of a container map to them.

def isPublic : UInt16 := 0x0001
def isPrivate : UInt16 := 0x0002
def isProtected : UInt16 := 0x0004
def isStatic : UInt16 := 0x0008
def isFinal : UInt16 := 0x0010
def isSuper : UInt16 := 0x0020
def isSynchronized : UInt16 := 0x0020
def isVolatile : UInt16 := 0x0040
def isBridge : UInt16 := 0x0040
def isTransient : UInt16 := 0x0080
def isVarargs : UInt16 := 0x0080
def isNative : UInt16 := 0x0100
def isInterface : UInt16 := 0x0200
def isAbstract : UInt16 := 0x0400
def isStrict : UInt16 := 0x0800
def isSynthetic : UInt16 := 0x1000
def isMarkerType : UInt16 := 0x2000
def isEnum : UInt16 := 0x4000

def declaredSynchronized : UInt32 := 0x20000

def has (access flag : UInt16) : Bool := access &&& flag != 0

-- Flags of a class header. Privacy and `static` of a nested class stay out of it, a protected
-- class is public to the virtual machine, and every proper class has the `super` bit.
def ofClass (flags : UInt32) : UInt16 :=
  let access := flags.toUInt16
  let access := if has access isProtected then access ||| isPublic else access
  let access := access &&& ~~~(isPrivate ||| isProtected ||| isStatic)
  if has access isInterface then access else access ||| isSuper

def ofMethod (flags : UInt32) : UInt16 :=
  let access := flags.toUInt16
  if flags &&& declaredSynchronized != 0 then access ||| isSynchronized else access

def ofField (flags : UInt32) : UInt16 := flags.toUInt16

def words : List (UInt16 × Option Bool × String) := [
  (isPublic, none, "public"), (isPrivate, none, "private"), (isProtected, none, "protected"),
  (isStatic, none, "static"), (isFinal, none, "final"),
  (isSynchronized, some true, "synchronized"),
  (isBridge, some true, "bridge"), (isVolatile, some false, "volatile"),
  (isVarargs, some true, "varargs"), (isTransient, some false, "transient"),
  (isNative, none, "native"), (isInterface, none, "interface"), (isAbstract, none, "abstract"),
  (isStrict, none, "strictfp"), (isSynthetic, none, "synthetic"),
  (isMarkerType, none, "annotation"), (isEnum, none, "enum")]

def modifiers (access : UInt16) (method : Bool) : List String :=
  words.filterMap fun (flag, only, word) =>
    if has access flag && (only.isNone || only = some method) then some word else none

end Restack.Access
