import OldPart.Common.SPSCSteps

/-!
# Two threads at one array

One thread pushes while `Size()` is below the capacity; another pops what is there, or calls
`consume_all`.  Here a step is a single access to a member, so that the accesses of the two come in
any order, one at a time.  What an operation has read before is kept in the state of its thread.

So memory is sequentially consistent here, which is more than the code is promised: `mWritePos` is
published with `release` and loaded with `acquire` or `relaxed`, and `mReadPos` is a plain `int32_t`
that both threads use, a data race that leaves the program undefined.
-/

namespace OldPart

namespace SPSCArray

/-! ## The threads -/

/-- How far the producer is in `if (Size() < capacity) Push(data)`: `Size` is about to read
`mReadPos`, `Push` is entered, its assertion is about to read `mReadPos`, the element is about to be
stored, and it is. -/
inductive Producer (α : Type) where
  | idle
  | sizing (data : α) (writePos : Int32)
  | pushing (data : α)
  | asserting (data : α) (writePos : Int32)
  | storing (data : α) (writePos : Int32)
  | publishing (data : α)

/-- How far the consumer is in `if (!Empty()) { First(); Pop(); }`: `Size` is about to read
`mReadPos`, `First` is, it is about to read the element, `Pop` is about to read `mReadPos`, and to
write it.  In `consume_all`, it is about to read `mReadPos`, and then in its loop. -/
inductive Consumer (α : Type) where
  | idle
  | sizing (writePos : Int32)
  | reading
  | fetching (readPos : Int32)
  | popping (x : α)
  | freeing (x : α) (readPos : Int32)
  | entering (writePos : Int32)
  | visiting (writePos readPos : Int32) (visited : List α)

structure Threads (α : Type) where
  array : SPSCArray α
  producer : Producer α
  consumer : Consumer α

/-- The next access of a thread.  A producer that is idle goes on with `data`, and a consumer with
`consume_all` or with one element. -/
inductive Access (α : Type) where
  | producer (data : α)
  | consumer (all : Bool)

/-- What comes of an access: an element was pushed or there was no room for it, one was popped or
there was none, the callback of `consume_all` has been called for some.  Undefined are an assertion
that does not hold, an index outside the array, and a sum that leaves `int`. -/
inductive Outcome (α : Type) where
  | pushed (data : α)
  | refused (data : α)
  | popped (x : α)
  | nothing
  | visited (xs : List α)
  | undefined
deriving DecidableEq, Repr

namespace Threads

variable {α : Type}

def start (prior : ℕ → α) (capacity : Int32) : Threads α :=
  ⟨init prior capacity, .idle, .idle⟩

abbrev difference (a b : Int32) : Option Int32 := Specialization.atomicWrite.minus a b

def produce (σ : Threads α) (data : α) : Threads α × List (Outcome α) :=
  let a := σ.array
  match σ.producer with
  | .idle => ({ σ with producer := .sizing data a.mWritePos }, [])
  | .sizing data writePos =>
      match difference writePos a.mReadPos with
      | none => ({ σ with producer := .idle }, [.undefined])
      | some size =>
          if size < a.mCapacity then ({ σ with producer := .pushing data }, [])
          else ({ σ with producer := .idle }, [.refused data])
  | .pushing data => ({ σ with producer := .asserting data a.mWritePos }, [])
  | .asserting data writePos =>
      match difference writePos a.mReadPos with
      | none => ({ σ with producer := .idle }, [.undefined])
      | some size =>
          if size < a.mCapacity then ({ σ with producer := .storing data writePos }, [])
          else ({ σ with producer := .idle }, [.undefined])
  | .storing data writePos =>
      match a.slot writePos with
      | none => ({ σ with producer := .idle }, [.undefined])
      | some i =>
          ({ σ with
              array := { a with mData := a.mData.set i data }
              producer := .publishing data }, [])
  | .publishing data =>
      -- `fetch_add`
      ({ σ with
          array := { a with mWritePos := a.mWritePos + 1 }
          producer := .idle }, [.pushed data])

def consume (σ : Threads α) (all : Bool) : Threads α × List (Outcome α) :=
  let a := σ.array
  match σ.consumer with
  | .idle =>
      ({ σ with consumer := if all then .entering a.mWritePos else .sizing a.mWritePos }, [])
  | .sizing writePos =>
      match difference writePos a.mReadPos with
      | none => ({ σ with consumer := .idle }, [.undefined])
      | some size =>
          if size = 0 then ({ σ with consumer := .idle }, [.nothing])
          else ({ σ with consumer := .reading }, [])
  | .reading => ({ σ with consumer := .fetching a.mReadPos }, [])
  | .fetching readPos =>
      match a.elemAt readPos with
      | none => ({ σ with consumer := .idle }, [.undefined])
      | some x => ({ σ with consumer := .popping x }, [])
  | .popping x => ({ σ with consumer := .freeing x a.mReadPos }, [])
  | .freeing x readPos =>
      match Specialization.atomicWrite.plus readPos 1 with
      | none => ({ σ with consumer := .idle }, [.undefined])
      | some readPos =>
          ({ σ with array := { a with mReadPos := readPos }, consumer := .idle }, [.popped x])
  | .entering writePos => ({ σ with consumer := .visiting writePos a.mReadPos [] }, [])
  | .visiting writePos readPos visited =>
      if readPos < writePos then
        match a.elemAt readPos, Specialization.atomicWrite.plus readPos 1 with
        | some x, some readPos =>
            ({ σ with consumer := .visiting writePos readPos (visited ++ [x]) }, [])
        | _, _ => ({ σ with consumer := .idle }, [.undefined])
      else
        ({ σ with array := { a with mReadPos := readPos }, consumer := .idle },
          [.visited visited])

def step : Machine (Threads α) (Access α) (Outcome α)
  | σ, .producer data => some (σ.produce data)
  | σ, .consumer all => some (σ.consume all)

end Threads

/-! ## The queue they should be -/

/-- A queue with room for `capacity` elements.  An outcome tells what is to be done, and what is
handed out is the queue's own. -/
def queue {α : Type} (capacity : ℕ) : Machine (Fifo α) (Outcome α) (Outcome α)
  | q, .pushed data =>
      if q.unread.length < capacity then some (q.push [data], [.pushed data]) else none
  | q, .refused data => if q.unread.length = capacity then some (q, [.refused data]) else none
  | q, .popped _ => q.unread.head?.map fun x => (q.take 1, [.popped x])
  | q, .nothing => some (q, [.nothing])
  | q, .visited xs => some (q.take xs.length, [.visited (q.unread.take xs.length)])
  | _, .undefined => none

def pushes {α : Type} (os : List (Outcome α)) : List α :=
  os.flatMap fun o => match o with
    | .pushed data => [data]
    | _ => []

def consumptions {α : Type} (os : List (Outcome α)) : List α :=
  os.flatMap fun o => match o with
    | .popped x => [x]
    | .visited xs => xs
    | _ => []

/-! ## Where the threads are -/

section Places

variable {α : Type}

/-- What the producer knows: there is room for what it pushes, and the slot of that is its own. -/
inductive ProducerAt (capacity : ℕ) (mData : List α) (q : Fifo α) : Producer α → Prop
  | idle : ProducerAt capacity mData q .idle
  | sizing (data : α) : ProducerAt capacity mData q (.sizing data (.ofNat q.pushed.length))
  | pushing (data : α) : q.unread.length < capacity → ProducerAt capacity mData q (.pushing data)
  | asserting (data : α) : q.unread.length < capacity →
      ProducerAt capacity mData q (.asserting data (.ofNat q.pushed.length))
  | storing (data : α) : q.unread.length < capacity →
      ProducerAt capacity mData q (.storing data (.ofNat q.pushed.length))
  | publishing (data : α) : q.unread.length < capacity →
      mData[q.pushed.length % capacity]? = some data →
        ProducerAt capacity mData q (.publishing data)

/-- What the consumer knows.  It has loaded `mWritePos` when at least `since` elements had been
pushed. -/
inductive ConsumerAt (since : ℕ) (q : Fifo α) : Consumer α → Prop
  | idle : ConsumerAt since q .idle
  | sizing {n : ℕ} : since ≤ n → q.taken ≤ n → n ≤ q.pushed.length →
      ConsumerAt since q (.sizing (.ofNat n))
  | reading : q.taken < q.pushed.length → ConsumerAt since q .reading
  | fetching : q.taken < q.pushed.length → ConsumerAt since q (.fetching (.ofNat q.taken))
  | popping {x : α} : q.unread.head? = some x → ConsumerAt since q (.popping x)
  | freeing {x : α} : q.unread.head? = some x → ConsumerAt since q (.freeing x (.ofNat q.taken))
  | entering {n : ℕ} : since ≤ n → q.taken ≤ n → n ≤ q.pushed.length →
      ConsumerAt since q (.entering (.ofNat n))
  | visiting {n k : ℕ} : since ≤ n → q.taken + k ≤ n → n ≤ q.pushed.length →
      ConsumerAt since q (.visiting (.ofNat n) (.ofNat (q.taken + k)) (q.unread.take k))

/-- The array is the queue, and the threads know what they should. -/
structure Threads.Consistent (capacity since : ℕ) (σ : Threads α) (q : Fifo α) : Prop where
  represents : Represents capacity σ.array q
  since_le : since ≤ q.pushed.length
  producer : ProducerAt capacity σ.array.mData q σ.producer
  consumer : ConsumerAt since q σ.consumer

variable {capacity since : ℕ} {mData : List α} {q : Fifo α}

/-- What the producer knows stays true when something is taken. -/
lemma ProducerAt.take {p : Producer α} (h : ProducerAt capacity mData q p) (k : ℕ) :
    ProducerAt capacity mData (q.take k) p := by
  have hless : (q.take k).unread.length ≤ q.unread.length := by
    rw [Fifo.length_unread, Fifo.length_unread, Fifo.pushed_take, Fifo.taken_take]
    omega
  cases h with
  | idle => exact .idle
  | sizing data => exact .sizing data
  | pushing data hroom => exact .pushing data (by omega)
  | asserting data hroom => exact .asserting data (by omega)
  | storing data hroom => exact .storing data (by omega)
  | publishing data hroom hstored => exact .publishing data (by omega) hstored

/-- What the consumer knows stays true when something is pushed. -/
lemma ConsumerAt.push {p : Consumer α} (h : ConsumerAt since q p)
    (hle : q.taken ≤ q.pushed.length) (x : α) : ConsumerAt since (q.push [x]) p := by
  have hlength : (q.push [x]).pushed.length = q.pushed.length + 1 := List.length_append
  have hunread : (q.push [x]).unread = q.unread ++ [x] := Fifo.unread_push hle [x]
  have hhead : ∀ {y : α}, q.unread.head? = some y → (q.push [x]).unread.head? = some y := by
    intro y hy
    rw [hunread, List.head?_append, hy]
    rfl
  cases h with
  | idle => exact .idle
  | sizing hsince hlo hhi => exact .sizing hsince hlo (by omega)
  | reading hlt => exact .reading (by rw [Fifo.taken_push]; omega)
  | fetching hlt => exact ConsumerAt.fetching (q := q.push [x]) (by rw [Fifo.taken_push]; omega)
  | popping hy => exact .popping (hhead hy)
  | freeing hy => exact ConsumerAt.freeing (q := q.push [x]) (hhead hy)
  | entering hsince hlo hhi => exact .entering hsince hlo (by omega)
  | @visiting n k hsince hlo hhi =>
    have htake : (q.push [x]).unread.take k = q.unread.take k := by
      rw [hunread, List.take_append_of_le_length]
      rw [Fifo.length_unread]
      omega
    rw [← htake]
    exact ConsumerAt.visiting (q := q.push [x]) hsince hlo (by omega)

end Places

/-! ## One access -/

section Accesses

variable {α : Type} {capacity since : ℕ} {a : SPSCArray α} {q : Fifo α} {σ : Threads α}

lemma difference_eq {n : ℕ} (h : Represents capacity a q) (hlo : q.taken ≤ n) (hlt : n < 2 ^ 31) :
    Threads.difference (.ofNat n) a.mReadPos = some (.ofNat (n - q.taken)) := by
  rw [Threads.difference, h.readPos, Specialization.minus_ofNat hlo (Or.inr hlt)]

lemma size_eq (h : Represents capacity a q) (hlt : q.pushed.length < 2 ^ 31) :
    Threads.difference (.ofNat q.pushed.length) a.mReadPos = some (.ofNat q.unread.length) := by
  rw [difference_eq h h.held.taken_le hlt, Fifo.length_unread]

lemma slot_ofNat (h : Represents capacity a q) {n : ℕ} (hlt : n < 2 ^ 31) :
    a.slot (.ofNat n) = some (n % capacity) := by
  have hin : ∀ i ≤ n, InSlots capacity i := fun i hi => inSlots_of_lt capacity (by omega)
  rw [h.slot_eq, if_pos (hin _ (Nat.le_refl _)), tmod_wrap32 hin, Int.toNat_natCast]

/-- An element in the slot behind the queue does not matter before it is published. -/
lemma Represents.store (h : Represents capacity a q) (hroom : q.unread.length < capacity) (x : α) :
    Represents capacity { a with mData := a.mData.set (q.pushed.length % capacity) x } q where
  pos := h.pos
  lt := h.lt
  capacity_eq := h.capacity_eq
  length := List.length_set.trans h.length
  writePos := h.writePos
  readPos := h.readPos
  inSlots := h.inSlots
  held := by
    have hlength := h.length
    rw [← hlength] at hroom ⊢
    have hpushed := h.held.push hroom x
    refine ⟨h.held.taken_le, ?_, fun i hlo hi => ?_⟩
    · rw [List.length_set]
      exact h.held.fits
    · have hslot := hpushed.slot i hlo (by rw [Fifo.pushed_push, List.length_append]; omega)
      rwa [Fifo.pushed_push, List.getElem?_append_left hi] at hslot

lemma Represents.publish (h : Represents capacity a q) (hroom : q.unread.length < capacity)
    (hlt : q.pushed.length < 2 ^ 31) {x : α}
    (hstored : a.mData[q.pushed.length % capacity]? = some x) :
    Represents capacity { a with mWritePos := a.mWritePos + 1 } (q.push [x]) := by
  obtain ⟨hi, rfl⟩ := List.getElem?_eq_some_iff.mp hstored
  have hpush := h.push hroom (inSlots_of_lt capacity hlt) a.mData[q.pushed.length % capacity]
  rw [List.set_getElem_self, Int32.ofNat_add, ← h.writePos] at hpush
  exact hpush

lemma produce_consistent (h : σ.Consistent capacity since q) (hlt : q.pushed.length < 2 ^ 31)
    (data : α) : ∃ q', Machine.Run (queue capacity) q (σ.produce data).2 q' (σ.produce data).2 ∧
      (q'.pushed.length < 2 ^ 31 → (σ.produce data).1.Consistent capacity since q') := by
  obtain ⟨a, p, r⟩ := σ
  obtain ⟨hrep, hsince, hproducer, hconsumer⟩ := h
  dsimp only at hrep hproducer hconsumer
  have hcapacity := hrep.lt_capacity_iff
  cases hproducer with
  | idle =>
    refine ⟨q, Machine.Run.nil q, fun _ => ⟨hrep, hsince, ?_, hconsumer⟩⟩
    show ProducerAt capacity a.mData q (.sizing data a.mWritePos)
    rw [hrep.writePos]
    exact .sizing data
  | sizing data =>
    rw [Threads.produce]
    simp only [size_eq hrep hlt]
    by_cases hroom : q.unread.length < capacity
    · rw [if_pos (hcapacity.mpr hroom)]
      exact ⟨q, Machine.Run.nil q, fun _ => ⟨hrep, hsince, .pushing data hroom, hconsumer⟩⟩
    · have hfull : q.unread.length = capacity := by
        have hle := hrep.held.length_unread_le
        rw [hrep.length] at hle
        omega
      rw [if_neg fun hless => hroom (hcapacity.mp hless)]
      exact ⟨q, Machine.Run.single (if_pos hfull),
        fun _ => ⟨hrep, hsince, .idle, hconsumer⟩⟩
  | pushing data hroom =>
    refine ⟨q, Machine.Run.nil q, fun _ => ⟨hrep, hsince, ?_, hconsumer⟩⟩
    show ProducerAt capacity a.mData q (.asserting data a.mWritePos)
    rw [hrep.writePos]
    exact .asserting data hroom
  | asserting data hroom =>
    rw [Threads.produce]
    simp only [size_eq hrep hlt]
    rw [if_pos (hcapacity.mpr hroom)]
    exact ⟨q, Machine.Run.nil q, fun _ => ⟨hrep, hsince, .storing data hroom, hconsumer⟩⟩
  | storing data hroom =>
    rw [Threads.produce]
    simp only [slot_ofNat hrep hlt]
    refine ⟨q, Machine.Run.nil q, fun _ => ⟨hrep.store hroom data, hsince, ?_, hconsumer⟩⟩
    refine .publishing data hroom (List.getElem?_set_self ?_)
    rw [hrep.length]
    exact Nat.mod_lt _ hrep.pos
  | publishing data hroom hstored =>
    refine ⟨q.push [data], Machine.Run.single (if_pos hroom), fun _ => ⟨?_, ?_, .idle, ?_⟩⟩
    · exact hrep.publish hroom hlt hstored
    · rw [Fifo.pushed_push, List.length_append]
      omega
    · exact hconsumer.push hrep.held.taken_le data

lemma elemAt_head (h : Represents capacity a q) {x : α} (hx : q.unread.head? = some x) :
    a.elemAt (.ofNat q.taken) = some x := by
  have hfirst := first_eq h hx
  rwa [first, h.readPos] at hfirst

lemma plus_one {n : ℕ} (hlt : n + 1 < 2 ^ 31) :
    Specialization.atomicWrite.plus (.ofNat n) 1 = some (.ofNat (n + 1)) :=
  Specialization.plus_ofNat (k := 1) (Or.inr hlt)

lemma ofNat_lt_ofNat_iff {m n : ℕ} (hm : m < 2 ^ 31) (hn : n < 2 ^ 31) :
    Int32.ofNat m < .ofNat n ↔ m < n := by
  rw [ofNat_lt_iff, wrap32_natCast hm, wrap32_natCast hn, Nat.cast_lt]

/-- What an access of the consumer leaves is the queue, or the queue when its outcome has come of
it, and nothing is pushed. -/
def Consumes (capacity since : ℕ) (q : Fifo α) (result : Threads α × List (Outcome α)) : Prop :=
  ∃ q', Machine.Run (queue capacity) q result.2 q' result.2 ∧ q'.pushed = q.pushed ∧
    result.1.Consistent capacity since q'

section Consumer

variable {p : Producer α} {r r' : Consumer α}

lemma Consumes.silent (h : Threads.Consistent capacity since ⟨a, p, r⟩ q)
    (hr : ConsumerAt since q r') : Consumes capacity since q (⟨a, p, r'⟩, []) :=
  ⟨q, Machine.Run.nil q, rfl, h.represents, h.since_le, h.producer, hr⟩

lemma consume_sizing {n : ℕ} (h : Threads.Consistent capacity since ⟨a, p, .sizing (.ofNat n)⟩ q)
    (hlo : q.taken ≤ n) (hhi : n ≤ q.pushed.length) (hlt : q.pushed.length < 2 ^ 31) (all : Bool) :
    Consumes capacity since q (Threads.consume ⟨a, p, .sizing (.ofNat n)⟩ all) := by
  rw [Threads.consume]
  simp only [difference_eq h.represents hlo (by omega)]
  by_cases hzero : Int32.ofNat (n - q.taken) = 0
  · rw [if_pos hzero]
    exact ⟨q, Machine.Run.single rfl, rfl, h.represents, h.since_le, h.producer, .idle⟩
  · have hne : n - q.taken ≠ 0 := by
      intro hnone
      rw [hnone] at hzero
      exact hzero rfl
    rw [if_neg hzero]
    exact .silent h (.reading (by omega))

lemma consume_fetching
    (h : Threads.Consistent capacity since ⟨a, p, .fetching (.ofNat q.taken)⟩ q)
    (hsome : q.taken < q.pushed.length) (all : Bool) :
    Consumes capacity since q (Threads.consume ⟨a, p, .fetching (.ofNat q.taken)⟩ all) := by
  obtain ⟨x, hx⟩ : ∃ x, q.unread.head? = some x := by
    rw [← Option.isSome_iff_exists, List.isSome_head?, Ne, ← List.length_eq_zero_iff,
      Fifo.length_unread]
    omega
  rw [Threads.consume]
  simp only [elemAt_head h.represents hx]
  exact .silent h (.popping hx)

lemma consume_freeing {x : α}
    (h : Threads.Consistent capacity since ⟨a, p, .freeing x (.ofNat q.taken)⟩ q)
    (hx : q.unread.head? = some x) (hlt : q.pushed.length < 2 ^ 31) (all : Bool) :
    Consumes capacity since q (Threads.consume ⟨a, p, .freeing x (.ofNat q.taken)⟩ all) := by
  have hone : 1 ≤ q.unread.length := by
    obtain ⟨rest, hunread⟩ := List.head?_eq_some_iff.mp hx
    rw [hunread]
    exact Nat.succ_pos _
  have hrep := h.represents
  have hlength := hrep.held.length_pushed
  rw [Threads.consume]
  simp only [plus_one (by omega : q.taken + 1 < 2 ^ 31)]
  refine ⟨q.take 1, Machine.Run.single ?_, rfl, hrep.take hone, h.since_le, h.producer.take 1,
    .idle⟩
  rw [queue, hx]
  rfl

/-- A turn of the loop of `consume_all`, or its end. -/
lemma consume_visiting {n k : ℕ} (h : Threads.Consistent capacity since
      ⟨a, p, .visiting (.ofNat n) (.ofNat (q.taken + k)) (q.unread.take k)⟩ q)
    (hn : since ≤ n) (hlo : q.taken + k ≤ n) (hhi : n ≤ q.pushed.length)
    (hlt : q.pushed.length < 2 ^ 31) (all : Bool) :
    Consumes capacity since q (Threads.consume
      ⟨a, p, .visiting (.ofNat n) (.ofNat (q.taken + k)) (q.unread.take k)⟩ all) := by
  have hrep := h.represents
  have hlength := hrep.held.length_pushed
  rw [Threads.consume]
  by_cases hless : q.taken + k < n
  · have hread : k < q.unread.length := by omega
    have hnear : Int32.ofNat (q.taken + k) < .ofNat n :=
      (ofNat_lt_ofNat_iff (by omega) (by omega)).mpr hless
    simp only [if_pos hnear, hrep.elemAt_eq hread, plus_one (by omega : q.taken + k + 1 < 2 ^ 31)]
    refine .silent h ?_
    show ConsumerAt since q (.visiting _ _ (q.unread.take k ++ [q.unread[k]]))
    rw [List.take_append_getElem hread, Nat.add_assoc]
    exact .visiting hn (by omega) hhi
  · have hfar : ¬Int32.ofNat (q.taken + k) < .ofNat n := by
      rw [ofNat_lt_iff, wrap32_natCast (by omega), wrap32_natCast (by omega), Nat.cast_lt]
      exact hless
    have hcount : (q.unread.take k).length = k := by
      rw [List.length_take]
      omega
    simp only [if_neg hfar]
    refine ⟨q.take k, Machine.Run.single ?_, rfl, hrep.take (by omega), h.since_le,
      h.producer.take k, .idle⟩
    rw [queue, hcount]

end Consumer

lemma consume_consistent (h : σ.Consistent capacity since q) (hlt : q.pushed.length < 2 ^ 31)
    (all : Bool) : Consumes capacity since q (σ.consume all) := by
  obtain ⟨a, p, r⟩ := σ
  obtain ⟨hrep, hsince, -, hconsumer⟩ := id h
  dsimp only at hrep hconsumer
  have htaken := hrep.held.taken_le
  cases hconsumer with
  | idle =>
    refine .silent h ?_
    rw [hrep.writePos]
    cases all with
    | true => exact .entering hsince htaken (Nat.le_refl _)
    | false => exact .sizing hsince htaken (Nat.le_refl _)
  | sizing hn hlo hhi => exact consume_sizing h hlo hhi hlt all
  | reading hsome =>
    refine .silent h ?_
    rw [hrep.readPos]
    exact .fetching hsome
  | fetching hsome => exact consume_fetching h hsome all
  | popping hx =>
    refine .silent h ?_
    rw [hrep.readPos]
    exact .freeing hx
  | freeing hx => exact consume_freeing h hx hlt all
  | entering hn hlo hhi =>
    refine .silent h ?_
    rw [hrep.readPos]
    exact ConsumerAt.visiting (k := 0) hn hlo hhi
  | visiting hn hlo hhi => exact consume_visiting h hn hlo hhi hlt all

end Accesses

/-! ## Every run -/

section Runs

variable {α : Type} {capacity since : ℕ} {q q' : Fifo α} {σ σ' : Threads α}
  {os os' : List (Outcome α)}

@[simp] lemma pushes_append (os os' : List (Outcome α)) :
    pushes (os ++ os') = pushes os ++ pushes os' := List.flatMap_append

@[simp] lemma consumptions_append (os os' : List (Outcome α)) :
    consumptions (os ++ os') = consumptions os ++ consumptions os' := List.flatMap_append

lemma exists_of_queue {o : Outcome α} (h : queue capacity q o = some (q', os)) :
    ∃ o', os = [o'] := by
  cases o with
  | pushed data =>
    obtain ⟨-, hsame⟩ := Option.ite_none_right_eq_some.mp h
    exact ⟨_, (Prod.mk.inj (Option.some.inj hsame)).2.symm⟩
  | refused data =>
    obtain ⟨-, hsame⟩ := Option.ite_none_right_eq_some.mp h
    exact ⟨_, (Prod.mk.inj (Option.some.inj hsame)).2.symm⟩
  | popped x =>
    obtain ⟨y, -, hsame⟩ := Option.map_eq_some_iff.mp h
    exact ⟨_, (Prod.mk.inj hsame).2.symm⟩
  | nothing => exact ⟨_, (Prod.mk.inj (Option.some.inj h)).2.symm⟩
  | visited xs => exact ⟨_, (Prod.mk.inj (Option.some.inj h)).2.symm⟩
  | undefined => cases h

/-- One operation on the queue: what it pushes comes behind the rest, and what it hands out was
next. -/
lemma queue_step {o : Outcome α} (hle : q.taken ≤ q.pushed.length)
    (h : queue capacity q o = some (q', [o])) :
    o ≠ .undefined ∧ q'.pushed = q.pushed ++ pushes [o] ∧ q'.taken ≤ q'.pushed.length ∧
      q'.pushed.take q'.taken = q.pushed.take q.taken ++ consumptions [o] := by
  have hnext : ∀ k, k ≤ q.unread.length →
      q.pushed.take (q.taken + k) = q.pushed.take q.taken ++ q.unread.take k :=
    fun k _ => List.take_add
  cases o with
  | pushed data =>
    obtain ⟨-, hsame⟩ := Option.ite_none_right_eq_some.mp h
    obtain rfl := (Prod.mk.inj (Option.some.inj hsame)).1
    refine ⟨nofun, rfl, ?_, ?_⟩
    · rw [Fifo.pushed_push, Fifo.taken_push, List.length_append]
      omega
    · rw [Fifo.pushed_push, Fifo.taken_push, List.take_append_of_le_length hle]
      exact (List.append_nil _).symm
  | refused data =>
    obtain ⟨-, hsame⟩ := Option.ite_none_right_eq_some.mp h
    obtain rfl := (Prod.mk.inj (Option.some.inj hsame)).1
    exact ⟨nofun, (List.append_nil _).symm, hle, (List.append_nil _).symm⟩
  | popped x =>
    obtain ⟨y, hy, hsame⟩ := Option.map_eq_some_iff.mp h
    obtain ⟨rfl, hout⟩ := Prod.mk.inj hsame
    obtain rfl : y = x := Outcome.popped.inj (List.head_eq_of_cons_eq hout)
    obtain ⟨rest, hunread⟩ := List.head?_eq_some_iff.mp hy
    have hone : 1 ≤ q.unread.length := by
      rw [hunread]
      exact Nat.succ_pos _
    refine ⟨nofun, (List.append_nil _).symm, ?_, ?_⟩
    · rw [Fifo.length_unread] at hone
      rw [Fifo.pushed_take, Fifo.taken_take]
      omega
    · rw [Fifo.pushed_take, Fifo.taken_take, hnext 1 hone, hunread]
      rfl
  | nothing =>
    obtain rfl := (Prod.mk.inj (Option.some.inj h)).1
    exact ⟨nofun, (List.append_nil _).symm, hle, (List.append_nil _).symm⟩
  | visited xs =>
    obtain ⟨rfl, hout⟩ := Prod.mk.inj (Option.some.inj h)
    have hxs : q.unread.take xs.length = xs := Outcome.visited.inj (List.head_eq_of_cons_eq hout)
    have hcount : xs.length ≤ q.unread.length := by
      have hlength := congrArg List.length hxs
      rw [List.length_take] at hlength
      omega
    refine ⟨nofun, (List.append_nil _).symm, ?_, ?_⟩
    · rw [Fifo.length_unread] at hcount
      rw [Fifo.pushed_take, Fifo.taken_take]
      omega
    · rw [Fifo.pushed_take, Fifo.taken_take, hnext _ hcount, hxs]
      exact congrArg _ (List.append_nil _).symm
  | undefined => cases h

/-- What a run of the queue has pushed and handed out, when it hands out what it is told to. -/
lemma queue_run (hle : q.taken ≤ q.pushed.length)
    (h : Machine.Run (queue capacity) q os q' os) :
    .undefined ∉ os ∧ q'.pushed = q.pushed ++ pushes os ∧ q'.taken ≤ q'.pushed.length ∧
      q'.pushed.take q'.taken = q.pushed.take q.taken ++ consumptions os := by
  induction os generalizing q with
  | nil =>
    obtain ⟨rfl, -⟩ := Machine.run_nil_iff.mp h
    exact ⟨nofun, (List.append_nil _).symm, hle, (List.append_nil _).symm⟩
  | cons o os ih =>
    rw [← List.singleton_append] at h
    obtain ⟨q₁, os₁, os₂, hfirst, hrest, hos⟩ := h.of_append
    have hone := Machine.run_singleton_iff.mp hfirst
    obtain ⟨o', rfl⟩ := exists_of_queue hone
    obtain ⟨rfl, rfl⟩ := List.cons.inj hos
    obtain ⟨hdefined, hpushed, hle', htaken⟩ := queue_step hle hone
    obtain ⟨hdefined', hpushed', hle'', htaken'⟩ := ih hle' hrest
    refine ⟨?_, ?_, hle'', ?_⟩
    · rw [List.mem_cons, not_or]
      exact ⟨hdefined.symm, hdefined'⟩
    · rw [hpushed', hpushed, List.append_assoc, ← pushes_append]
      rfl
    · rw [htaken', htaken, List.append_assoc, ← consumptions_append]
      rfl

lemma step_consistent {i : Access α} (h : σ.Consistent capacity since q)
    (hlt : q.pushed.length < 2 ^ 31) (hstep : Threads.step σ i = some (σ', os)) :
    ∃ q', Machine.Run (queue capacity) q os q' os ∧
      (q'.pushed.length < 2 ^ 31 → σ'.Consistent capacity since q') := by
  cases i with
  | producer data =>
    obtain ⟨rfl, rfl⟩ := Prod.mk.inj (Option.some.inj hstep)
    exact produce_consistent h hlt data
  | consumer all =>
    obtain ⟨rfl, rfl⟩ := Prod.mk.inj (Option.some.inj hstep)
    obtain ⟨q', hqueue, -, hconsistent⟩ := consume_consistent h hlt all
    exact ⟨q', hqueue, fun _ => hconsistent⟩

/-- Along a run the queue goes along, up to the number of pushes that an `int` can count. -/
lemma run_consistent {is : List (Access α)} (h : σ.Consistent capacity since q)
    (hrun : Machine.Run Threads.step σ is σ' os)
    (hlt : q.pushed.length + (pushes os).length < 2 ^ 31) :
    ∃ q', Machine.Run (queue capacity) q os q' os ∧ σ'.Consistent capacity since q' := by
  induction hrun generalizing q with
  | nil σ => exact ⟨q, Machine.Run.nil q, h⟩
  | cons hstep _ ih =>
    rw [pushes_append, List.length_append] at hlt
    obtain ⟨q₁, hfirst, hconsistent⟩ := step_consistent h (by omega) hstep
    obtain ⟨-, hpushed, -⟩ := queue_run h.represents.held.taken_le hfirst
    have hlength := congrArg List.length hpushed
    rw [List.length_append] at hlength
    obtain ⟨q', hrest, hend⟩ := ih (hconsistent (by omega)) (by omega)
    exact ⟨q', hfirst.append hrest, hend⟩

lemma consistent_start (prior : ℕ → α) {capacity : Int32} (hcapacity : 0 < capacity) :
    (Threads.start prior capacity).Consistent capacity.toNatClampNeg 0 .empty :=
  ⟨represents_init prior hcapacity, Nat.zero_le _, .idle, .idle⟩

/-- Whatever order the accesses of the threads come in, with fewer than 2³¹ pushes: what comes of
their operations is, one after the other, what comes of these operations on a queue with room for
`capacity` elements.  So no assertion fails and no index is outside the array, and what is handed
out is what was pushed, each element once and in order. -/
theorem run_threads_is_queue (prior : ℕ → α) (capacity : Int32) (hcapacity : 0 < capacity)
    {is : List (Access α)}
    (hrun : Machine.Run Threads.step (Threads.start prior capacity) is σ os)
    (hlt : (pushes os).length < 2 ^ 31) :
    ∃ q, Machine.Run (queue capacity.toNatClampNeg) .empty os q os ∧ .undefined ∉ os ∧
      q.pushed = pushes os ∧ q.pushed.take q.taken = consumptions os := by
  obtain ⟨q, hqueue, -⟩ := run_consistent (consistent_start prior hcapacity) hrun
    (by rw [Fifo.empty, List.length_nil, Nat.zero_add]; exact hlt)
  obtain ⟨hdefined, hpushed, -, htaken⟩ := queue_run (Nat.le_refl _) hqueue
  exact ⟨q, hqueue, hdefined, hpushed, htaken⟩

/-- One element that is pushed and popped while a second push finds the array full. -/
def onePushedOneRefused : List (Access ℕ) :=
  List.replicate 6 (.producer 7) ++ [.producer 8, .consumer false, .producer 8] ++
    List.replicate 5 (.consumer false)

lemma exec_onePushedOneRefused : ∃ σ,
    Machine.exec Threads.step (Threads.start (fun _ => 0) 1) onePushedOneRefused =
      some (σ, [.pushed 7, .refused 8, .popped 7]) :=
  ⟨_, rfl⟩

theorem run_onePushedOneRefused :
    ∃ q, Machine.Run (queue 1) .empty [.pushed 7, .refused 8, .popped 7] q
      [.pushed 7, .refused 8, .popped 7] ∧ q.pushed.take q.taken = [7] := by
  obtain ⟨σ, hexec⟩ := exec_onePushedOneRefused
  obtain ⟨q, hqueue, -, -, htaken⟩ := run_threads_is_queue (fun _ => 0) 1 (by decide)
    (Machine.run_iff_exec.mpr hexec) (by decide)
  exact ⟨q, hqueue, htaken⟩

/-! ## What the consumer sees -/

def Outcome.OfProducer : Outcome α → Prop
  | .pushed _ | .refused _ => True
  | _ => False

/-- A consumer that finds nothing, or that has visited all there was, has left nothing that had
been pushed when it looked. -/
lemma since_le_of_consume {o : Outcome α} {all : Bool} (h : σ.Consistent capacity since q)
    (hlt : q.pushed.length < 2 ^ 31) (hout : (σ.consume all).2 = [o])
    (ho : o = .nothing ∨ ∃ xs, o = .visited xs) :
    since ≤ q.taken + (consumptions [o]).length := by
  obtain ⟨a, p, r⟩ := σ
  obtain ⟨hrep, -, -, hconsumer⟩ := h
  dsimp only at hrep hconsumer
  rw [Threads.consume] at hout
  cases hconsumer with
  | idle => cases hout
  | @sizing n hn hlo hhi =>
    simp only [difference_eq hrep hlo (by omega)] at hout
    by_cases hzero : Int32.ofNat (n - q.taken) = 0
    · have hnone : n - q.taken = 0 := by
        have hint := congrArg Int32.toInt hzero
        rw [toInt_ofNat_eq_wrap32, wrap32_natCast (by omega), Int32.toInt_zero] at hint
        exact_mod_cast hint
      omega
    · rw [if_neg hzero] at hout
      cases hout
  | reading hsome => cases hout
  | fetching hsome =>
    dsimp only at hout
    split at hout
    · obtain rfl := List.head_eq_of_cons_eq hout
      rcases ho with ho | ⟨xs, ho⟩ <;> cases ho
    · cases hout
  | popping hx => cases hout
  | freeing hx =>
    dsimp only at hout
    split at hout
    · obtain rfl := List.head_eq_of_cons_eq hout
      rcases ho with ho | ⟨xs, ho⟩ <;> cases ho
    · obtain rfl := List.head_eq_of_cons_eq hout
      rcases ho with ho | ⟨xs, ho⟩ <;> cases ho
  | entering hn hlo hhi => cases hout
  | @visiting n k hn hlo hhi =>
    have hlength := hrep.held.length_pushed
    by_cases hless : q.taken + k < n
    · have hnear : Int32.ofNat (q.taken + k) < .ofNat n := by
        rw [ofNat_lt_iff, wrap32_natCast (by omega), wrap32_natCast (by omega), Nat.cast_lt]
        exact hless
      have hread : k < q.unread.length := by omega
      simp only [if_pos hnear, hrep.elemAt_eq hread,
        plus_one (by omega : q.taken + k + 1 < 2 ^ 31)] at hout
      cases hout
    · have hfar : ¬Int32.ofNat (q.taken + k) < .ofNat n := by
        rw [ofNat_lt_iff, wrap32_natCast (by omega), wrap32_natCast (by omega), Nat.cast_lt]
        exact hless
      simp only [if_neg hfar] at hout
      obtain rfl := List.head_eq_of_cons_eq hout
      have hcount : (consumptions [Outcome.visited (q.unread.take k)]).length = k := by
        rw [consumptions, List.flatMap_singleton, List.length_take]
        omega
      omega

lemma consumptions_of_producer (h : ∀ o ∈ os, o.OfProducer) : consumptions os = [] := by
  refine List.flatMap_eq_nil_iff.mpr fun o ho => ?_
  cases o with
  | pushed data => rfl
  | refused data => rfl
  | popped x => exact (h _ ho).elim
  | nothing => rfl
  | visited xs => exact (h _ ho).elim
  | undefined => rfl

/-- A consumer that begins to look and finds nothing, or goes through all there is, has been handed
everything whose push had returned before it began, whatever the producer does meanwhile. -/
theorem consumer_sees_pushed (prior : ℕ → α) (capacity : Int32) (hcapacity : 0 < capacity)
    {is₁ is₂ : List (Access α)} {σ₁ σ₂ σ₃ : Threads α} {os₁ os₂ : List (Outcome α)} {all : Bool}
    {o : Outcome α}
    (hbefore : Machine.Run Threads.step (Threads.start prior capacity) is₁ σ₁ os₁)
    (hidle : σ₁.consumer = .idle) (hmeanwhile : Machine.Run Threads.step σ₁ is₂ σ₂ os₂)
    (hproducer : ∀ o ∈ os₂, o.OfProducer)
    (hreturns : Threads.step σ₂ (.consumer all) = some (σ₃, [o]))
    (ho : o = .nothing ∨ ∃ xs, o = .visited xs) (hlt : (pushes (os₁ ++ os₂)).length < 2 ^ 31) :
    pushes os₁ <+: consumptions (os₁ ++ [o]) := by
  rw [pushes_append, List.length_append] at hlt
  obtain ⟨q₁, hqueue₁, hconsistent₁⟩ := run_consistent (consistent_start prior hcapacity) hbefore
    (by rw [Fifo.empty, List.length_nil]; omega)
  obtain ⟨-, hpushed₁, hle₁, htaken₁⟩ := queue_run (Nat.le_refl _) hqueue₁
  have hlength₁ := congrArg List.length hpushed₁
  rw [Fifo.empty, List.nil_append] at hpushed₁ hlength₁
  -- the consumer is idle, so whatever it loads from now on counts these pushes
  have hlook : σ₁.Consistent capacity.toNatClampNeg q₁.pushed.length q₁ :=
    ⟨hconsistent₁.represents, Nat.le_refl _, hconsistent₁.producer, hidle ▸ .idle⟩
  obtain ⟨q₂, hqueue₂, hconsistent₂⟩ := run_consistent hlook hmeanwhile (by omega)
  obtain ⟨-, hpushed₂, hle₂, htaken₂⟩ := queue_run hle₁ hqueue₂
  have hlength₂ := congrArg List.length hpushed₂
  rw [List.length_append] at hlength₂
  have hconsume : σ₂.consume all = (σ₃, [o]) := Option.some.inj hreturns
  have hsince := since_le_of_consume hconsistent₂ (by omega) (congrArg Prod.snd hconsume) ho
  obtain ⟨q₃, hqueue₃, -, -⟩ := consume_consistent hconsistent₂ (by omega) all
  rw [hconsume] at hqueue₃
  dsimp only at hqueue₃
  obtain ⟨-, hpushed₃, hle₃, htaken₃⟩ := queue_run hle₂ hqueue₃
  have hcount := congrArg List.length htaken₃
  rw [List.length_append, List.length_take_of_le hle₃, List.length_take_of_le hle₂] at hcount
  rw [htaken₂, consumptions_of_producer hproducer, List.append_nil, htaken₁] at htaken₃
  have hall : consumptions (os₁ ++ [o]) = q₃.pushed.take q₃.taken := by
    rw [consumptions_append, htaken₃]
    rfl
  have hbegins : q₁.pushed <+: q₃.pushed := by
    rw [hpushed₃, hpushed₂, List.append_assoc]
    exact List.prefix_append _ _
  rw [hall, ← hpushed₁]
  exact List.prefix_take_iff.mpr ⟨hbegins, by omega⟩

/-- A consumer that calls `consume_all` when `7` has been pushed, while `8` is. -/
theorem consumer_sees_seven :
    pushes [.pushed 7] <+: consumptions [Outcome.pushed 7, .visited [7]] := by
  have hbefore : ∃ σ₁, Machine.exec Threads.step (Threads.start (fun _ => 0) 2)
      (List.replicate 6 (.producer 7)) = some (σ₁, [.pushed 7]) ∧ σ₁.consumer = .idle ∧
      ∃ σ₂, Machine.exec Threads.step σ₁ ([.consumer true] ++ List.replicate 6 (.producer 8) ++
        List.replicate 2 (.consumer true)) = some (σ₂, [.pushed 8]) ∧
      ∃ σ₃, Threads.step σ₂ (.consumer true) = some (σ₃, [.visited [7]]) :=
    ⟨_, rfl, rfl, _, rfl, _, rfl⟩
  obtain ⟨σ₁, hexec₁, hidle, σ₂, hexec₂, σ₃, hreturns⟩ := hbefore
  exact consumer_sees_pushed (fun _ => 0) 2 (by decide) (Machine.run_iff_exec.mpr hexec₁) hidle
    (Machine.run_iff_exec.mpr hexec₂) (by simp [Outcome.OfProducer]) hreturns (Or.inr ⟨_, rfl⟩)
    (by decide)

/-! ## Whose slot it is -/

/-- The index at which the next access of the producer stores an element. -/
def Threads.storesTo (σ : Threads α) : Option ℕ :=
  match σ.producer with
  | .storing _ writePos => σ.array.slot writePos
  | _ => none

/-- The consumer has a reference to the element at this index, or reads it next: what `First` is
about to return or has returned, up to the end of `Pop`, and all elements of the loop of
`consume_all`. -/
def Threads.RefersTo (σ : Threads α) (i : ℕ) : Prop :=
  match σ.consumer with
  | .fetching readPos => σ.array.slot readPos = some i
  | .popping _ | .freeing _ _ => σ.array.slot σ.array.mReadPos = some i
  | .visiting writePos _ _ =>
      ∃ pos, σ.array.mReadPos ≤ pos ∧ pos < writePos ∧ σ.array.slot pos = some i
  | _ => False

lemma mod_ne_of_lt {m n k : ℕ} (hmk : m < k) (hkn : k < m + n) : m % n ≠ k % n := by
  intro hsame
  have hdvd := (Nat.modEq_iff_dvd' hmk.le).mp hsame
  have hle := Nat.le_of_dvd (by omega) hdvd
  omega

/-- In every state the threads can come to with fewer than 2³¹ pushes, the producer does not store
an element where the consumer reads one, or has a reference to one. -/
theorem slots_apart (prior : ℕ → α) (capacity : Int32) (hcapacity : 0 < capacity)
    {is : List (Access α)}
    (hrun : Machine.Run Threads.step (Threads.start prior capacity) is σ os)
    (hlt : (pushes os).length < 2 ^ 31) {i : ℕ} (hstores : σ.storesTo = some i) :
    ¬σ.RefersTo i := by
  obtain ⟨q, hqueue, hrep, -, hproducer, hconsumer⟩ :=
    run_consistent (consistent_start prior hcapacity) hrun
      (by rw [Fifo.empty, List.length_nil, Nat.zero_add]; exact hlt)
  obtain ⟨-, hpushed, -⟩ := queue_run (Nat.le_refl _) hqueue
  have hcount := congrArg List.length hpushed
  rw [Fifo.empty, List.nil_append] at hcount
  have hlength := hrep.held.length_pushed
  obtain ⟨a, p, r⟩ := σ
  dsimp only at hrep hproducer hconsumer hlength
  unfold Threads.storesTo at hstores
  cases hproducer with
  | storing data hroom =>
    dsimp only at hstores
    rw [slot_ofNat hrep (by omega)] at hstores
    obtain rfl := Option.some.inj hstores
    -- an unread position is less than the capacity away from the one that is written
    have hother : ∀ n, q.taken ≤ n → n < q.pushed.length →
        a.slot (.ofNat n) ≠ some (q.pushed.length % capacity.toNatClampNeg) := by
      intro n hlo hhi hsame
      rw [slot_ofNat hrep (by omega)] at hsame
      exact mod_ne_of_lt hhi (by omega) (Option.some.inj hsame)
    have hfirst : 0 < q.unread.length →
        a.slot a.mReadPos ≠ some (q.pushed.length % capacity.toNatClampNeg) := by
      intro hsome
      rw [hrep.readPos]
      exact hother q.taken (Nat.le_refl _) (by omega)
    have hsome : ∀ {x : α}, q.unread.head? = some x → 0 < q.unread.length := by
      intro x hx
      obtain ⟨rest, hunread⟩ := List.head?_eq_some_iff.mp hx
      rw [hunread]
      exact Nat.succ_pos _
    intro hrefers
    unfold Threads.RefersTo at hrefers
    cases hconsumer with
    | fetching hlt => exact hother q.taken (Nat.le_refl _) hlt hrefers
    | popping hx => exact hfirst (hsome hx) hrefers
    | freeing hx => exact hfirst (hsome hx) hrefers
    | @visiting n k hn hlo hhi =>
      obtain ⟨pos, hge, hless, hslot⟩ := hrefers
      have hnonneg : 0 ≤ pos := by
        refine Int32.le_trans ?_ hge
        rw [hrep.readPos, Int32.le_iff_toInt_le, toInt_ofNat_eq_wrap32,
          wrap32_natCast (by omega), Int32.toInt_zero]
        exact Int.natCast_nonneg _
      obtain ⟨hofNat, hpos⟩ := exists_eq_ofNat hnonneg
      rw [hrep.readPos, Int32.le_iff_toInt_le, hofNat, toInt_ofNat_eq_wrap32,
        toInt_ofNat_eq_wrap32, wrap32_natCast (by omega), wrap32_natCast hpos] at hge
      rw [hofNat, ofNat_lt_ofNat_iff hpos (by omega)] at hless
      rw [hofNat] at hslot
      exact hother _ (by omega) (by omega) hslot
    | idle | sizing | reading | entering => exact hrefers
  | idle | sizing | pushing | asserting | publishing => cases hstores

/-- In an array of two, the producer stores behind the element that the consumer has fetched. -/
theorem slots_apart_of_two :
    ∃ σ : Threads ℕ, σ.storesTo = some 1 ∧ ¬σ.RefersTo 1 ∧ σ.RefersTo 0 := by
  obtain ⟨σ, hexec, hstores, hrefers⟩ : ∃ σ, Machine.exec Threads.step
      (Threads.start (fun _ => 0) 2) (List.replicate 6 (.producer 7) ++
        List.replicate 4 (.consumer false) ++ List.replicate 4 (.producer 8)) =
          some (σ, [.pushed 7]) ∧ σ.storesTo = some 1 ∧ σ.RefersTo 0 := by
    refine ⟨_, rfl, rfl, ?_⟩
    show SPSCArray.slot _ _ = some 0
    rfl
  exact ⟨σ, hstores, slots_apart (fun _ => 0) 2 (by decide) (Machine.run_iff_exec.mpr hexec)
    (by decide) hstores, hrefers⟩

end Runs

end SPSCArray

end OldPart
