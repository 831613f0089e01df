import OldPart.Lib.Fifo
import OldPart.Lib.Machine
import OldPart.Lib.MachineInt

/-!
# `SPSCArray`

An array between one producer and one consumer.  Its positions count everything that has been
written and read; a slot is the remainder of one.

A step is one operation as a whole.  It has no result where the code is undefined: at an index
outside the array, at a sum that leaves `int`, behind an assertion that does not hold.
-/

namespace OldPart

/-- The type of a position. -/
inductive Position where
  | int32
  | atomicInt
deriving DecidableEq, Repr

/-- `SPSCArray<T, WT, RT>`, and whether it is compiled with an `int` that wraps. -/
structure Specialization where
  WT : Position
  RT : Position
  wraps : Bool
deriving DecidableEq, Repr

/-- `SPSCArray<T, int32_t, int32_t>`. -/
def Specialization.plain : Specialization := ⟨.int32, .int32, false⟩

/-- `SPSCArray<T, std::atomic_int, int32_t>`. -/
def Specialization.atomicWrite : Specialization := ⟨.atomicInt, .int32, false⟩

/-- `SPSCArray<T, int32_t, std::atomic_int>`. -/
def Specialization.atomicRead : Specialization := ⟨.int32, .atomicInt, false⟩

namespace Specialization

variable (c : Specialization)

/-- The specialization with an `int` that wraps. -/
def wrapping : Specialization := { c with wraps := true }

/-- A sum of two `int`. -/
def plus (a b : Int32) : Option Int32 :=
  if c.wraps ∨ (a + b).toInt = a.toInt + b.toInt then some (a + b) else none

/-- A difference of two `int`. -/
def minus (a b : Int32) : Option Int32 :=
  if c.wraps ∨ (a - b).toInt = a.toInt - b.toInt then some (a - b) else none

/-- `+=` on a position, or `fetch_add`, which wraps. -/
def add (p : Position) (a b : Int32) : Option Int32 :=
  match p with
  | .int32 => c.plus a b
  | .atomicInt => some (a + b)

end Specialization

structure SPSCArray (α : Type) where
  mData : List α
  mCapacity : Int32
  mWritePos : Int32
  mReadPos : Int32
deriving DecidableEq, Repr

namespace SPSCArray

variable {α : Type} (c : Specialization) (a : SPSCArray α)

/-- `Init`.  `prior` is what the elements of a new array are. -/
def init (prior : ℕ → α) (capacity : Int32) : SPSCArray α where
  mData := (List.range capacity.toNatClampNeg).map prior
  mCapacity := capacity
  mWritePos := 0
  mReadPos := 0

/-- The index `pos % mCapacity`, where there is an element. -/
def slot (pos : Int32) : Option ℕ :=
  let i := pos % a.mCapacity
  if 0 ≤ i ∧ i.toNatClampNeg < a.mData.length then some i.toNatClampNeg else none

/-- `mData[pos % mCapacity]`. -/
def elemAt (pos : Int32) : Option α := (a.slot pos).bind fun i => a.mData[i]?

def size : Option Int32 := c.minus a.mWritePos a.mReadPos

def empty : Option Bool := (a.size c).map fun size => size = 0

def push (data : α) : Option (SPSCArray α) := do
  let size ← c.minus a.mWritePos a.mReadPos
  if size < a.mCapacity then
    let i ← a.slot a.mWritePos
    let writePos ← c.add c.WT a.mWritePos 1
    return { a with mData := a.mData.set i data, mWritePos := writePos }
  else none

def first : Option α := a.elemAt a.mReadPos

/-- `First(k)`. -/
def firstAt (k : Int32) : Option α := do
  let pos ← c.plus a.mReadPos k
  a.elemAt pos

/-- `Valid(k)`. -/
def valid (k : Int32) : Option Bool := do
  let size ← c.minus a.mWritePos a.mReadPos
  let behind ← c.minus size k
  return 0 < behind

def pop : Option (SPSCArray α) := do
  let readPos ← c.add c.RT a.mReadPos 1
  return { a with mReadPos := readPos }

/-- `Skip(k)`. -/
def skip (k : Int32) : Option (SPSCArray α) := do
  let readPos ← c.add c.RT a.mReadPos k
  return { a with mReadPos := readPos }

/-- A callback that pushes while there is room. -/
def pushWhileRoom : List α → SPSCArray α → Option (SPSCArray α)
  | [], a => some a
  | data :: rest, a => do
      let size ← a.size c
      if size < a.mCapacity then
        let a ← a.push c data
        pushWhileRoom rest a
      else some a

/-- The loop of `consume_all`.  The `k`-th call of the callback, counted from zero, gets the next
of the `visited` elements and pushes `cb k`.  The position that is read is published at the end. -/
def consumeLoop (cb : ℕ → List α) (writePos : Int32) :
    (turns k : ℕ) → (readPos : Int32) → (visited : List α) → SPSCArray α →
      Option (SPSCArray α × List α)
  | 0, _, readPos, visited, a =>
      if readPos < writePos then none else some ({ a with mReadPos := readPos }, visited)
  | turns + 1, k, readPos, visited, a =>
      if readPos < writePos then do
        let x ← a.elemAt readPos
        let a ← pushWhileRoom c (cb k) a
        let readPos ← c.plus readPos 1
        consumeLoop cb writePos turns (k + 1) readPos (visited ++ [x]) a
      else some ({ a with mReadPos := readPos }, visited)

/-- `consume_all`, with as many turns as there are positions in front of `writePos`. -/
def consumeAll (cb : ℕ → List α) : Option (SPSCArray α × List α) :=
  consumeLoop c cb a.mWritePos (a.mWritePos.toInt - a.mReadPos.toInt).toNat 0 a.mReadPos [] a

/-- An operation of the producer or of the consumer. -/
inductive Op (α : Type) where
  | push (data : α)
  | first
  | firstAt (k : Int32)
  | valid (k : Int32)
  | pop
  | skip (k : Int32)
  | size
  | empty
  | consumeAll (cb : ℕ → List α)

/-- What an operation returns, or what it hands to its callback. -/
inductive Answer (α : Type) where
  | nothing
  | elem (x : α)
  | bool (b : Bool)
  | int (n : ℤ)
  | visited (xs : List α)
deriving DecidableEq, Repr

/-- One operation. -/
def step : Machine (SPSCArray α) (Op α) (Answer α)
  | a, .push data => (a.push c data).map (·, [.nothing])
  | a, .first => a.first.map fun x => (a, [.elem x])
  | a, .firstAt k => (a.firstAt c k).map fun x => (a, [.elem x])
  | a, .valid k => (a.valid c k).map fun b => (a, [.bool b])
  | a, .pop => (a.pop c).map (·, [.nothing])
  | a, .skip k => (a.skip c k).map (·, [.nothing])
  | a, .size => (a.size c).map fun n => (a, [.int n.toInt])
  | a, .empty => (a.empty c).map fun b => (a, [.bool b])
  | a, .consumeAll cb => (a.consumeAll c cb).map fun (a, xs) => (a, [.visited xs])

end SPSCArray

/-! ## The queue -/

namespace Fifo

variable {α : Type}

/-- `k` denotes an unread element. -/
abbrev Live (q : Fifo α) (k : Int32) : Prop := 0 ≤ k ∧ k.toNatClampNeg < q.unread.length

/-- What a callback that is called for every unread element pushes while there is room: what it is
called for stays in the queue until the last call. -/
def pushedBy (q : Fifo α) (capacity : ℕ) (cb : ℕ → List α) : List α :=
  ((List.range q.unread.length).flatMap cb).take (capacity - q.unread.length)

/-- The queue with room for `capacity` elements.  Nothing is pushed when it is full, nothing is
popped when it is empty, and `k` stays within what is unread, or is not negative at least. -/
def step (capacity : ℕ) : Machine (Fifo α) (SPSCArray.Op α) (SPSCArray.Answer α)
  | q, .push data =>
      if q.unread.length < capacity then some (q.push [data], [.nothing]) else none
  | q, .first => q.unread.head?.map fun x => (q, [.elem x])
  | q, .firstAt k => if 0 ≤ k then q.unread[k.toNatClampNeg]?.map fun x => (q, [.elem x]) else none
  | q, .valid k => if 0 ≤ k then some (q, [.bool (q.Live k)]) else none
  | q, .pop => if q.unread ≠ [] then some (q.take 1, [.nothing]) else none
  | q, .skip k =>
      if 0 ≤ k ∧ k.toNatClampNeg ≤ q.unread.length then
        some (q.take k.toNatClampNeg, [.nothing])
      else none
  | q, .size => some (q, [.int q.unread.length])
  | q, .empty => some (q, [.bool q.unread.isEmpty])
  | q, .consumeAll cb =>
      some ((q.push (q.pushedBy capacity cb)).take q.unread.length, [.visited q.unread])

/-- A step pushes something, takes something, and gives one answer. -/
lemma exists_of_step {capacity : ℕ} {q q' : Fifo α} {op : SPSCArray.Op α}
    {answers : List (SPSCArray.Answer α)} (h : q.step capacity op = some (q', answers)) :
    ∃ xs k answer, q' = (q.push xs).take k ∧ answers = [answer] := by
  have hkept : ∀ {answer : SPSCArray.Answer α}, some (q, [answer]) = some (q', answers) →
      ∃ xs k answer, q' = (q.push xs).take k ∧ answers = [answer] := by
    intro answer hsame
    obtain ⟨rfl, rfl⟩ := Prod.mk.inj (Option.some.inj hsame)
    exact ⟨[], 0, answer, by rw [push_nil]; rfl, rfl⟩
  have htaken : ∀ {k : ℕ}, some (q.take k, [SPSCArray.Answer.nothing]) = some (q', answers) →
      ∃ xs k answer, q' = (q.push xs).take k ∧ answers = [answer] := by
    intro k hsame
    obtain ⟨rfl, rfl⟩ := Prod.mk.inj (Option.some.inj hsame)
    exact ⟨[], k, .nothing, by rw [push_nil], rfl⟩
  cases op with
  | push data =>
    rw [step] at h
    split at h
    · obtain ⟨rfl, rfl⟩ := Prod.mk.inj (Option.some.inj h)
      exact ⟨[data], 0, .nothing, rfl, rfl⟩
    · cases h
  | first =>
    obtain ⟨x, -, hx⟩ := Option.map_eq_some_iff.mp h
    exact hkept (congrArg some hx)
  | firstAt k =>
    rw [step] at h
    split at h
    · obtain ⟨x, -, hx⟩ := Option.map_eq_some_iff.mp h
      exact hkept (congrArg some hx)
    · cases h
  | valid k =>
    rw [step] at h
    split at h
    · exact hkept h
    · cases h
  | pop =>
    rw [step] at h
    split at h
    · exact htaken h
    · cases h
  | skip k =>
    rw [step] at h
    split at h
    · exact htaken h
    · cases h
  | size => exact hkept h
  | empty => exact hkept h
  | consumeAll cb =>
    obtain ⟨rfl, rfl⟩ := Prod.mk.inj (Option.some.inj h)
    exact ⟨_, _, _, rfl, rfl⟩

end Fifo

end OldPart
