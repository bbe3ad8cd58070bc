/-!
# Cache levels

A hierarchy has up to three levels, L1 closest to the core. `Levels α` holds one optional value per
level.
-/

namespace SetAssoc

inductive Level where
  | l1
  | l2
  | l3
  deriving DecidableEq, Repr

namespace Level

def all : List Level := [l1, l2, l3]

def index : Level → Nat
  | l1 => 0
  | l2 => 1
  | l3 => 2

def parent? : Level → Option Level
  | l1 => none
  | l2 => some l1
  | l3 => some l2

def child? : Level → Option Level
  | l1 => some l2
  | l2 => some l3
  | l3 => none

def name : Level → String
  | l1 => "L1"
  | l2 => "L2"
  | l3 => "L3"

end Level

structure Levels (α : Type) where
  l1 : Option α := none
  l2 : Option α := none
  l3 : Option α := none
  deriving DecidableEq, Repr

namespace Levels

variable {α β : Type}

def get? (levels : Levels α) : Level → Option α
  | .l1 => levels.l1
  | .l2 => levels.l2
  | .l3 => levels.l3

def set (levels : Levels α) (level : Level) (value : Option α) : Levels α :=
  match level with
  | .l1 => { levels with l1 := value }
  | .l2 => { levels with l2 := value }
  | .l3 => { levels with l3 := value }

def map (f : α → β) (levels : Levels α) : Levels β where
  l1 := levels.l1.map f
  l2 := levels.l2.map f
  l3 := levels.l3.map f

@[simp]
theorem get?_set (levels : Levels α) (level other : Level) (value : Option α) :
    (levels.set level value).get? other = if other = level then value else levels.get? other := by
  cases level <;> cases other <;> rfl

@[simp]
theorem get?_map (f : α → β) (levels : Levels α) (level : Level) :
    (levels.map f).get? level = (levels.get? level).map f := by
  cases level <;> rfl

def chainOf (levels : Levels α) : List Level → List (Level × α)
  | [] => []
  | level :: rest =>
      match levels.get? level with
      | some value => (level, value) :: levels.chainOf rest
      | none => []

def chain (levels : Levels α) : List (Level × α) := levels.chainOf Level.all

end Levels

end SetAssoc
