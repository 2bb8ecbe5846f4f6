import Brynet.Lib.MachineInt
import Brynet.Lib.RingBuffer
import Brynet.Lib.Transition

/-!
# `stack_s`

A ring buffer of elements of one size that grows when it is full, over `array_s`, a block of
memory that is divided into cells of that size.  An element is a list of bytes, and a
pointer to one, as it is given and returned, is the element it points to; `none` is the null
pointer.

The counts and positions are values of `int`.  Sums of them wrap around, and `%` is the
remainder of the division that rounds towards zero.  `malloc` says whether the allocations
of a call succeed.
-/

namespace Brynet

open MachineInt Transition

abbrev Element := List UInt8

/-! ## The array -/

/-- `struct array_s`, with the buffer by its cells. -/
structure ArrayS where
  cells : List Element
  elementNum : ℤ
deriving Repr, DecidableEq

namespace ArrayS

/-- `ox_array_new`, for a size that can be computed. -/
def oxArrayNew (malloc : Bool) (num : ℤ) (elementSize : ℕ) : Option ArrayS :=
  if malloc then
    some
      { cells := List.replicate num.toNat (List.replicate elementSize 0)
        elementNum := num }
  else none

/-- An index out of range fails an assertion; in a build without assertions the result is
null. -/
def oxArrayAt (self : ArrayS) (index : ℤ) : Option Element :=
  if 0 ≤ index ∧ index < self.elementNum then self.cells[index.toNat]? else none

def oxArraySet (self : ArrayS) (index : ℤ) (data : Element) : ArrayS × Bool :=
  match self.oxArrayAt index with
  | some _ => ({ self with cells := self.cells.set index.toNat data }, true)
  | none => (self, false)

end ArrayS

/-! ## The stack -/

structure StackS where
  array : ArrayS
  elementSize : ℕ
  elementNum : ℤ
  front : ℤ
  num : ℤ
deriving Repr, DecidableEq

namespace StackS

def oxStackNew (malloc : Bool) (num : ℤ) (elementSize : ℕ) : Option StackS :=
  (ArrayS.oxArrayNew malloc num elementSize).map fun array =>
    { array, elementSize, elementNum := num, front := 0, num := 0 }

def oxStackInit (self : StackS) : StackS := { self with front := 0, num := 0 }

def oxStackIsfull (self : StackS) : Bool := self.num = self.elementNum

def oxStackSize (self : StackS) : ℤ := self.elementNum

/-- The index of the cell `i` places behind the front. -/
def index (self : StackS) (i : ℤ) : ℤ := (int32 (self.front + i)).tmod self.elementNum

/-- The loop of `ox_stack_increase`, after `i` turns.  There is no element at the null
pointer to be copied. -/
def copyTo (self : StackS) (tmp : ArrayS) : ℕ → ArrayS
  | 0 => tmp
  | i + 1 =>
      match self.array.oxArrayAt (self.index i) with
      | some data => ((self.copyTo tmp i).oxArraySet i data).1
      | none => self.copyTo tmp i

def oxStackIncrease (self : StackS) (malloc : Bool) (increaseNum : ℤ) : StackS × Bool :=
  match ArrayS.oxArrayNew malloc (int32 (self.elementNum + increaseNum)) self.elementSize with
  | none => (self, false)
  | some tmp =>
      let array := self.copyTo tmp self.num.toNat
      ({ self with array, front := 0, elementNum := array.elementNum }, true)

/-- `ox_stack_push` from where it knows whether the stack has grown. -/
def pushInto (self : StackS) (data : Element) : StackS × Bool :=
  if self.oxStackIsfull then (self, false)
  else
    ({ self with
        array := (self.array.oxArraySet (self.index self.num) data).1
        num := int32 (self.num + 1) }, true)

def oxStackPush (self : StackS) (malloc : Bool) (data : Element) : StackS × Bool :=
  if self.oxStackIsfull then (self.oxStackIncrease malloc self.oxStackSize).1.pushInto data
  else self.pushInto data

def oxStackFront (self : StackS) : Option Element :=
  if 0 < self.num then self.array.oxArrayAt self.front else none

def oxStackPopfront (self : StackS) : StackS × Option Element :=
  match self.oxStackFront with
  | some data =>
      ({ self with
          num := int32 (self.num - 1)
          front := (int32 (self.front + 1)).tmod self.elementNum }, some data)
  | none => (self, none)

def oxStackPopback (self : StackS) : StackS × Option Element :=
  if 0 < self.num then
    let num := int32 (self.num - 1)
    ({ self with num }, self.array.oxArrayAt (self.index num))
  else (self, none)

end StackS

/-! ## Calls -/

inductive StackCall
  | push (malloc : Bool) (data : Element)
  | popfront
  | popback
  | front
  | increase (malloc : Bool) (increaseNum : ℤ)
  | init
deriving Repr, DecidableEq

/-- What a call returns. -/
inductive StackReply
  | bool (b : Bool)
  | pointer (p : Option Element)
  | void
deriving Repr, DecidableEq

namespace StackS

def call (self : StackS) : StackCall → StackS × StackReply
  | .push malloc data => (self.oxStackPush malloc data).map id .bool
  | .popfront => self.oxStackPopfront.map id .pointer
  | .popback => self.oxStackPopback.map id .pointer
  | .front => (self, .pointer self.oxStackFront)
  | .increase malloc increaseNum => (self.oxStackIncrease malloc increaseNum).map id .bool
  | .init => (self.oxStackInit, .void)

/-- Whether the size of the memory that the call asks for is less than `2 ^ 31`, and the
amount to increase by is not negative. -/
def mayCall (self : StackS) : StackCall → Bool
  | .push _ _ =>
      !self.oxStackIsfull || (self.elementNum + self.elementNum) * self.elementSize < 2 ^ 31
  | .increase _ increaseNum =>
      0 ≤ increaseNum && increaseNum < 2 ^ 31 &&
        (self.elementNum + increaseNum) * self.elementSize < 2 ^ 31
  | _ => true

/-- Any capacity and size of elements, and then any calls. -/
def system : System StackS StackCall where
  init s := ∃ (num : ℤ) (elementSize : ℕ), 0 ≤ num ∧ num < 2 ^ 31 ∧ num * elementSize < 2 ^ 31 ∧
    oxStackNew true num elementSize = some s
  next s c := if s.mayCall c then some (s.call c).1 else none

/-- Whether the sums that the call forms are values of `int`: the index of the cell that a
push fills or a pop empties, those of the cells that are copied, and the new capacity. -/
def inRange (self : StackS) : StackCall → Bool
  | .push malloc _ =>
      if self.oxStackIsfull then
        self.elementNum + self.elementNum < 2 ^ 31 && (!malloc || self.front + self.num ≤ 2 ^ 31)
      else self.front + self.num < 2 ^ 31
  | .popback => self.front + self.num ≤ 2 ^ 31
  | .increase malloc increaseNum =>
      self.elementNum + increaseNum < 2 ^ 31 && (!malloc || self.front + self.num ≤ 2 ^ 31)
  | _ => true

/-- `array[(front + i) mod element_num]` for `i < num`. -/
def contents (self : StackS) : List Element :=
  (List.range self.num.toNat).map fun i : ℕ =>
    self.array.cells.getD ((self.front + i) % self.elementNum).toNat []

end StackS

end Brynet
