import Mathlib.Algebra.Order.Ring.Nat
import Mathlib.Data.List.Basic

/-!
# The source of the heap

`IceCapSystemAllocator`, which hands the heap of a component out to `dlmalloc` from
the start on.  The start is moved before it is compared with the end, and by a sum
that wraps.
-/

set_option autoImplicit false

namespace IceCap.Runtime

/-- `icecap_runtime_heap_start` and `icecap_runtime_heap_end` -/
structure Heap where
  start : UInt64
  stop : UInt64
  deriving DecidableEq

/-- What `alloc` returns: the pointer, the size and the flags. -/
structure Grant where
  addr : UInt64
  size : UInt64
  flags : UInt32
  deriving DecidableEq

def nullGrant : Grant := ⟨0, 0, 0⟩

namespace Heap

def alloc (heap : Heap) (size : UInt64) : Grant × Heap :=
  let addr := heap.start
  let heap := { heap with start := heap.start + size }
  if heap.start > heap.stop then (nullGrant, heap) else (⟨addr, size, 0⟩, heap)

def remains (heap : Heap) : Nat := heap.stop.toNat - heap.start.toNat

end Heap

/-- A call and the state it is made in. -/
structure HeapCall where
  heap : Heap
  size : UInt64

namespace HeapCall

variable (call : HeapCall)

def grant : Grant := (call.heap.alloc call.size).1

def after : Heap := (call.heap.alloc call.size).2

/-- A null pointer is returned. -/
def Fails : Prop := call.grant.addr = 0

instance : Decidable call.Fails := inferInstanceAs (Decidable (_ = _))

/-- An address of the range that is returned. -/
def Covers (address : Nat) : Prop :=
  call.grant.addr.toNat ≤ address ∧ address < call.grant.addr.toNat + call.grant.size.toNat

end HeapCall

/-- The calls of a run, one after another. -/
def heapCalls (heap : Heap) : List UInt64 → List HeapCall
  | [] => []
  | size :: sizes => ⟨heap, size⟩ :: heapCalls (heap.alloc size).2 sizes

/-- The call fails if its size exceeds what remains and only then, and leaves the start if so. -/
structure HeapCall.Honest (call : HeapCall) : Prop where
  fails_iff : call.Fails ↔ call.heap.remains < call.size.toNat
  unchanged : call.Fails → call.after.start = call.heap.start

/-- The ranges that are returned lie in the heap and have no address in common, and all calls are
honest. -/
structure SoundSource (heap : Heap) (calls : List HeapCall) : Prop where
  inside : ∀ call ∈ calls, ¬ call.Fails → heap.start.toNat ≤ call.grant.addr.toNat ∧
    call.grant.addr.toNat + call.grant.size.toNat ≤ heap.stop.toNat
  disjoint : calls.Pairwise fun call later => ¬ call.Fails → ¬ later.Fails →
    ∀ address, call.Covers address → ¬ later.Covers address
  honest : ∀ call ∈ calls, call.Honest

variable {heap : Heap} {size : UInt64}

/-! ## One call -/

theorem Heap.alloc_moves (heap : Heap) (size : UInt64) :
    (heap.alloc size).2 = { heap with start := heap.start + size } := by
  unfold alloc
  exact apply_ite Prod.snd _ _ _ |>.trans (ite_self _)

theorem Heap.alloc_fits (isHeap : heap.start ≤ heap.stop) (fits : size.toNat ≤ heap.remains) :
    heap.alloc size = (⟨heap.start, size, 0⟩, { heap with start := heap.start + size }) ∧
      (heap.start + size).toNat = heap.start.toNat + size.toNat := by
  have order : heap.start.toNat ≤ heap.stop.toNat := isHeap
  have less := heap.stop.toNat_lt
  unfold remains at fits
  have isSum : (heap.start + size).toNat = heap.start.toNat + size.toNat := by
    rw [UInt64.toNat_add]
    exact Nat.mod_eq_of_lt (by omega)
  have notAbove : ¬ heap.start + size > heap.stop := by
    intro above
    have isLess : heap.stop.toNat < (heap.start + size).toNat := above
    omega
  exact ⟨if_neg notAbove, isSum⟩

/-- A size that is larger than what remains moves the start, or the sum wraps and it is granted. -/
theorem HeapCall.dishonest_of_large (large : heap.remains < size.toNat) :
    ¬ (⟨heap, size⟩ : HeapCall).Honest := by
  intro honest
  have unchanged := honest.unchanged (honest.fails_iff.mpr large)
  unfold after at unchanged
  rw [Heap.alloc_moves] at unchanged
  have isZero : size = 0 := UInt64.add_eq_left.mp unchanged
  rw [isZero] at large
  exact Nat.not_lt_zero _ large

theorem HeapCall.honest_iff (isHeap : heap.start ≤ heap.stop) :
    (⟨heap, size⟩ : HeapCall).Honest ↔ size.toNat ≤ heap.remains ∧ heap.start ≠ 0 := by
  constructor
  · intro honest
    have fits : size.toNat ≤ heap.remains := by
      by_contra large
      exact dishonest_of_large (Nat.lt_of_not_le large) honest
    refine ⟨fits, fun isZero => ?_⟩
    have fails : (⟨heap, size⟩ : HeapCall).Fails := by
      unfold Fails grant
      rw [(Heap.alloc_fits isHeap fits).1]
      exact isZero
    exact Nat.not_le_of_lt (honest.fails_iff.mp fails) fits
  · intro ⟨fits, nonzero⟩
    have succeeds : ¬ (⟨heap, size⟩ : HeapCall).Fails := by
      unfold Fails grant
      rw [(Heap.alloc_fits isHeap fits).1]
      exact nonzero
    exact ⟨iff_of_false succeeds (Nat.not_lt_of_le fits), fun fails => absurd fails succeeds⟩

/-! ## A sequence of calls -/

def total (sizes : List UInt64) : Nat := (sizes.map UInt64.toNat).sum

theorem total_cons (size : UInt64) (sizes : List UInt64) :
    total (size :: sizes) = size.toNat + total sizes := rfl

/-- What is left of the heap after a call that fits. -/
theorem Heap.next_fits (isHeap : heap.start ≤ heap.stop) (fits : size.toNat ≤ heap.remains) :
    (heap.alloc size).2.start ≤ (heap.alloc size).2.stop ∧ (heap.alloc size).2.stop = heap.stop ∧
      (heap.alloc size).2.start.toNat = heap.start.toNat + size.toNat ∧
      (heap.alloc size).2.remains = heap.remains - size.toNat := by
  obtain ⟨isGrant, isSum⟩ := alloc_fits isHeap fits
  have order : heap.start.toNat ≤ heap.stop.toNat := isHeap
  unfold remains at fits ⊢
  rw [isGrant]
  refine ⟨?_, rfl, isSum, ?_⟩
  · show (heap.start + size).toNat ≤ heap.stop.toNat
    omega
  · show heap.stop.toNat - (heap.start + size).toNat = _
    omega

/-- As long as all calls are honest, the requests fit one behind the other. -/
theorem total_le_of_honest (sizes : List UInt64) :
    ∀ heap : Heap, heap.start ≤ heap.stop → (∀ call ∈ heapCalls heap sizes, call.Honest) →
      total sizes ≤ heap.remains ∧ (heap.start = 0 → sizes = []) := by
  induction sizes with
  | nil => exact fun heap _ _ => ⟨Nat.zero_le _, fun _ => rfl⟩
  | cons size sizes ih =>
      intro heap isHeap honest
      rw [heapCalls] at honest
      obtain ⟨fits, nonzero⟩ := (HeapCall.honest_iff isHeap).mp (honest _ List.mem_cons_self)
      obtain ⟨nextHeap, _, _, left⟩ := Heap.next_fits isHeap fits
      obtain ⟨rest, _⟩ := ih _ nextHeap fun call member => honest call (List.mem_cons_of_mem _ member)
      rw [left] at rest
      rw [total_cons]
      exact ⟨by omega, fun isZero => absurd isZero nonzero⟩

theorem heapCalls_fit (sizes : List UInt64) :
    ∀ heap : Heap, heap.start ≤ heap.stop → heap.start ≠ 0 → total sizes ≤ heap.remains →
      (∀ call ∈ heapCalls heap sizes, call.Honest ∧ call.heap.start ≤ call.heap.stop ∧
        call.size.toNat ≤ call.heap.remains ∧ call.heap.stop = heap.stop ∧
        heap.start.toNat ≤ call.heap.start.toNat) ∧
      (heapCalls heap sizes).Pairwise fun call later =>
        call.heap.start.toNat + call.size.toNat ≤ later.heap.start.toNat := by
  induction sizes with
  | nil => exact fun heap _ _ _ => ⟨fun call member => absurd member List.not_mem_nil, .nil⟩
  | cons size sizes ih =>
      intro heap isHeap nonzero enough
      rw [total_cons] at enough
      have fits : size.toNat ≤ heap.remains := by omega
      obtain ⟨nextHeap, sameStop, nextStart, left⟩ := Heap.next_fits isHeap fits
      have nextNonzero : (heap.alloc size).2.start ≠ 0 := by
        intro isZero
        rw [isZero] at nextStart
        apply nonzero
        apply UInt64.toNat_inj.mp
        simp only [UInt64.toNat_zero] at nextStart ⊢
        omega
      obtain ⟨calls, ordered⟩ := ih _ nextHeap nextNonzero (by omega)
      rw [heapCalls]
      constructor
      · intro call member
        rcases List.mem_cons.mp member with rfl | member
        · exact ⟨(HeapCall.honest_iff isHeap).mpr ⟨fits, nonzero⟩, isHeap, fits, rfl, Nat.le_refl _⟩
        · obtain ⟨honest, within, callFits, stop, start⟩ := calls call member
          exact ⟨honest, within, callFits, stop.trans sameStop, by omega⟩
      · refine List.pairwise_cons.mpr ⟨fun later member => ?_, ordered⟩
        obtain ⟨_, _, _, _, start⟩ := calls later member
        rwa [nextStart] at start

/-- The source of the heap is sound for a sequence of requests exactly if they fit into the heap
together, and the heap does not begin with the address that stands for a failure. -/
theorem heapCalls_sound_iff (heap : Heap) (isHeap : heap.start ≤ heap.stop) (sizes : List UInt64) :
    SoundSource heap (heapCalls heap sizes) ↔
      total sizes ≤ heap.remains ∧ (heap.start = 0 → sizes = []) := by
  constructor
  · intro sound
    exact total_le_of_honest sizes heap isHeap sound.honest
  · intro ⟨enough, nonzero⟩
    by_cases isZero : heap.start = 0
    · rw [nonzero isZero]
      exact ⟨by simp [heapCalls], .nil, by simp [heapCalls]⟩
    obtain ⟨calls, ordered⟩ := heapCalls_fit sizes heap isHeap isZero enough
    have granted : ∀ call ∈ heapCalls heap sizes, call.grant = ⟨call.heap.start, call.size, 0⟩ := by
      intro call member
      obtain ⟨_, within, fits, _⟩ := calls call member
      exact congrArg Prod.fst (Heap.alloc_fits within fits).1
    constructor
    · intro call member _
      obtain ⟨_, within, fits, stop, start⟩ := calls call member
      have order : call.heap.start.toNat ≤ call.heap.stop.toNat := within
      rw [granted call member]
      unfold Heap.remains at fits
      rw [stop] at fits order
      exact ⟨start, by simp only; omega⟩
    · apply ordered.imp_of_mem
      intro call later member isLater before _ _ address covers laterCovers
      unfold HeapCall.Covers at covers laterCovers
      rw [granted call member] at covers
      rw [granted later isLater] at laterCovers
      simp only at covers laterCovers
      omega
    · exact fun call member => (calls call member).1

/-- Two requests that fill a heap of 16 KiB. -/
theorem heapCalls_sound_iff_twoPages :
    SoundSource ⟨0x40000000, 0x40004000⟩ (heapCalls ⟨0x40000000, 0x40004000⟩ [0x3000, 0x1000]) ↔
      total [0x3000, 0x1000] ≤ Heap.remains ⟨0x40000000, 0x40004000⟩ ∧
        ((0x40000000 : UInt64) = 0 → [(0x3000 : UInt64), 0x1000] = []) :=
  heapCalls_sound_iff ⟨0x40000000, 0x40004000⟩ (by decide) [0x3000, 0x1000]

/-- A request that is too large fails, and so does a page that would still fit; a request whose sum
wraps is granted. -/
theorem heapCalls_unsound :
    (¬ SoundSource ⟨0x40000000, 0x40004000⟩
        (heapCalls ⟨0x40000000, 0x40004000⟩ [0x5000, 0x1000]) ∧
      Heap.alloc ⟨0x40000000, 0x40004000⟩ 0x5000 = (nullGrant, ⟨0x40005000, 0x40004000⟩) ∧
      (Heap.alloc ⟨0x40005000, 0x40004000⟩ 0x1000).1 = nullGrant) ∧
    Heap.alloc ⟨0x40000000, 0x40004000⟩ 0xffffffffffff0000 =
      (⟨0x40000000, 0xffffffffffff0000, 0⟩, ⟨0x3fff0000, 0x40004000⟩) := by
  refine ⟨⟨fun sound => ?_, by decide, by decide⟩, by decide⟩
  exact HeapCall.dishonest_of_large (by decide) (sound.honest _ List.mem_cons_self)

end IceCap.Runtime
