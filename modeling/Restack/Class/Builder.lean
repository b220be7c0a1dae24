import Restack.Class.Description

namespace Restack

-- Values of annotations as trees, and the builders that record them call by
-- call. A builder appends to what it stands on. A child that it gives out
-- stands on the element it appended last, and writes into that element.

inductive Element where
  | value (leaf : Leaf)
  | enum (type constant : String)
  | annot (type : String) (values : List (String × Element))
  | array (items : List Element)

-- A call that gives out a child is followed by the calls to the child, up to
-- the one that leaves it.
inductive AnnotCall where
  | value (name : Option String) (leaf : Leaf)
  | enum (name : Option String) (type constant : String)
  | nested (name : Option String) (type : String)
  | array (name : Option String)
  | leave

namespace AnnotPart

mutual

def calls : AnnotPart → List AnnotCall
  | .value name leaf => [.value name leaf]
  | .enum name type constant => [.enum name type constant]
  | .nested name type body => .nested name type :: (bodyCalls body ++ [.leave])
  | .array name items => .array name :: (bodyCalls items ++ [.leave])

def bodyCalls : Option (List AnnotPart) → List AnnotCall
  | none => []
  | some parts => listCalls parts

def listCalls : List AnnotPart → List AnnotCall
  | [] => []
  | part :: rest => part.calls ++ listCalls rest

end

end AnnotPart

def onLast (f : α → α) : List α → List α
  | [] => []
  | [last] => [f last]
  | first :: rest => first :: onLast f rest

theorem onLast_append (f : α → α) (items : List α) (last : α) : onLast f (items ++ [last]) = items ++ [f last] := by
  induction items with
  | nil => rfl
  | cons first rest ih =>
    cases rest with
    | nil => rfl
    | cons second others => exact congrArg (first :: ·) ih

theorem onLast_onLast (f g : α → α) (items : List α) : onLast f (onLast g items) = onLast (f ∘ g) items := by
  induction items with
  | nil => rfl
  | cons first rest ih =>
    cases rest with
    | nil => rfl
    | cons second others =>
      cases others with
      | nil => rfl
      | cons => exact congrArg (first :: ·) ih

structure Builder (σ : Type) where
  push : Option String → Element → σ → σ
  onLast : (Element → Element) → σ → σ
  onLast_push : ∀ f name element s, onLast f (push name element s) = push name (f element) s
  onLast_onLast : ∀ f g s, onLast f (onLast g s) = onLast (f ∘ g) s

namespace Builder

def annot : Builder (List (String × Element)) where
  push name element values := values ++ [(name.getD "", element)]
  onLast f values := Restack.onLast (fun (name, element) => (name, f element)) values
  onLast_push _ _ _ values := onLast_append _ values _
  onLast_onLast _ _ values := Restack.onLast_onLast _ _ values

def array : Builder (List Element) where
  push _ element items := items ++ [element]
  onLast f items := Restack.onLast f items
  onLast_push f _ _ items := onLast_append f items _
  onLast_onLast f g items := Restack.onLast_onLast f g items

-- A default value has a single place, and every call but those to children replaces what is there.
def default : Builder (Option Element) where
  push _ element _ := some element
  onLast f slot := slot.map f
  onLast_push _ _ _ _ := rfl
  onLast_onLast _ _ slot := by cases slot <;> rfl

end Builder

-- Appends to the element that is as many children deep. Leaves give out no children.
def Element.put : Nat → Option String → Element → Element → Element
  | 0, name, new, .annot type values => .annot type (Builder.annot.push name new values)
  | 0, name, new, .array items => .array (Builder.array.push name new items)
  | depth + 1, name, new, .annot type values => .annot type (Builder.annot.onLast (put depth name new) values)
  | depth + 1, name, new, .array items => .array (Builder.array.onLast (put depth name new) items)
  | _, _, _, .value leaf => .value leaf
  | _, _, _, .enum type constant => .enum type constant

namespace Builder

def put (b : Builder σ) (depth : Nat) (name : Option String) (new : Element) (s : σ) : σ :=
  match depth with
  | 0 => b.push name new s
  | depth + 1 => b.onLast (Element.put depth name new) s

-- What has been recorded, and how many children are given out.
def step (b : Builder σ) : σ × Nat → AnnotCall → σ × Nat
  | (s, depth), .value name leaf => (b.put depth name (.value leaf) s, depth)
  | (s, depth), .enum name type constant => (b.put depth name (.enum type constant) s, depth)
  | (s, depth), .nested name type => (b.put depth name (.annot type []) s, depth + 1)
  | (s, depth), .array name => (b.put depth name (.array []) s, depth + 1)
  | (s, depth), .leave => (s, depth - 1)

def run (b : Builder σ) (s : σ) (calls : List AnnotCall) : σ := (calls.foldl b.step (s, 0)).1

end Builder

end Restack
