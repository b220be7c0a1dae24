import Restack.Class.Node
import Restack.Class.OfContainer

namespace Restack.Container

def describeIndex (c : Container) (settings : Settings) (w : Interest) (index : Nat) :
    Except Fault ClassDescription := do
  c.describe settings w (← c.classDef index)

def describeClass (c : Container) (settings : Settings) (w : Interest) (descriptor : String) :
    Except Fault (Option ClassDescription) := do
  match ← c.findClass descriptor with
  | none => return none
  | some d => return some (← c.describe settings w d)

def classNodes (c : Container) (settings : Settings) : Except Fault (List ClassNode) :=
  (List.range c.classes.size).mapM fun index => do
    return ClassNode.ofDescription (← c.describeIndex settings .everything index)

end Restack.Container
