import AbiConformance.Proofs.Heap.Contents
import AbiConformance.Proofs.Heap.Trace
import AbiConformance.Proofs.Record.Transfer

namespace AbiConformance

namespace Arena

structure Unchanged (s s' : Arena) : Prop where
  memory : s'.memory = s.memory
  ledger : s'.ledger = s.ledger
  log : s'.log = s.log

section Request

variable {A : Allocator} {s : Arena} {size align a : Nat}

theorem request_of_refused (h : A s.requests size align = none) :
    s.request A size align = (none, { s with requests := s.requests + 1 }) := by
  simp only [request, h]

theorem request_of_granted (h : A s.requests size align = some a) :
    s.request A size align = (some a, { s with
      requests := s.requests + 1
      ledger := s.ledger.grant thread (.allocate a size) }) := by
  simp only [request, h]

end Request

def withBlock (s : Arena) (a n : Nat) : Arena where
  memory := s.memory.store a (UInt64.ofNat n)
  ledger := s.ledger.grant thread (.allocate a (n + Block.header))
  log := s.log ++ [.blockAllocated n]
  requests := s.requests + 1

end Arena

namespace Block

variable {A : Allocator} {s : Arena} {live : Region} {n a : Nat} {bytes : List UInt8}

def Refused (A : Allocator) (s : Arena) (n : Nat) : Prop :=
  layout? n = none ∨ A s.requests (n + header) header = none

theorem layout?_cases (n : Nat) : layout? n = none ∨ layout? n = some (n + header) := by
  cases h : layout? n with
  | none => exact Or.inl rfl
  | some size =>
    obtain ⟨rfl, -⟩ := layout?_eq_some h
    exact Or.inr rfl

theorem not_refused_iff : ¬Refused A s n ↔
    layout? n = some (n + header) ∧ ∃ a, A s.requests (n + header) header = some a := by
  rw [Refused, not_or, ← Option.ne_none_iff_exists']
  refine and_congr_left fun _ => ⟨(layout?_cases n).resolve_left, ?_⟩
  intro h
  rw [h]
  exact Option.some_ne_none _

theorem allocate_of_refused (h : Refused A s n) :
    ∃ s', allocate A s n = (.null, s') ∧ s.Unchanged s' := by
  rcases layout?_cases n with hnone | hsome
  · exact ⟨s, by simp only [allocate, hnone], rfl, rfl, rfl⟩
  · have hrefused := h.resolve_left (hsome ▸ Option.some_ne_none _)
    refine ⟨{ s with requests := s.requests + 1 }, ?_, rfl, rfl, rfl⟩
    simp only [allocate, hsome, Arena.request_of_refused hrefused]

theorem allocate_of_granted (hl : layout? n = some (n + header))
    (ha : A s.requests (n + header) header = some a) :
    allocate A s n = (.ofAddr (a + header), s.withBlock a n) := by
  simp only [allocate, hl, Arena.request_of_granted ha]
  rfl

theorem supply_of_refused (h : Refused A s bytes.length) :
    ∃ s', supply A s bytes = (.null, s') ∧ s.Unchanged s' := by
  obtain ⟨s', heq, hsame⟩ := allocate_of_refused h
  exact ⟨s', by simp only [supply, heq, fill, Pointer.isNull_null, if_true], hsame⟩

theorem supply_of_granted (hl : layout? bytes.length = some (bytes.length + header))
    (ha : A s.requests (bytes.length + header) header = some a) :
    supply A s bytes =
      (.ofAddr (a + header), fill (s.withBlock a bytes.length) (.ofAddr (a + header)) bytes) := by
  simp only [supply, allocate_of_granted hl ha]

theorem isNull_supply_iff (h : A.SoundAt s.requests (bytes.length + header) header live) :
    (supply A s bytes).1.isNull = true ↔ Refused A s bytes.length := by
  rw [← not_iff_not, not_refused_iff, Bool.not_eq_true, isNull_supply h, Option.isSome_iff_exists]

end Block

namespace HeapCall

def SuppliesOrRefuses (c : HeapCall) (A : Allocator) (s : Arena) (live : Region)
    (bytes : List UInt8) : Prop :=
  ∃ p s', c.runIn A s = .returned (.pointer p, s') ∧
    (p.isNull = true ↔ Block.Refused A s bytes.length) ∧
    (p.isNull = true → s.Unchanged s') ∧
    (p.isNull = false → Block.Supplied s s' live p bytes ∧
      s'.log = s.log ++ [.blockAllocated bytes.length])

theorem suppliesOrRefuses_of_supply {c : HeapCall} {A : Allocator} {s : Arena} {live : Region}
    {bytes : List UInt8} (hc : c.runIn A s =
      .returned (.pointer (Block.supply A s bytes).1, (Block.supply A s bytes).2))
    (h : A.SoundAt s.requests (bytes.length + Block.header) Block.header live) :
    c.SuppliesOrRefuses A s live bytes := by
  refine ⟨_, _, hc, Block.isNull_supply_iff h, ?_, ?_⟩
  · intro hnull
    obtain ⟨s', heq, hsame⟩ := Block.supply_of_refused ((Block.isNull_supply_iff h).mp hnull)
    rw [heq]
    exact hsame
  · intro hp
    refine ⟨Block.supply_supplied h hp, ?_⟩
    rw [Block.log_supply h, hp]
    rfl

end HeapCall

namespace CounterRecord

structure Complete (s s' : Arena) (live : Region) (p : Pointer) : Prop
    extends Fresh s s' live p where
  record : load s'.memory p.addr = ⟨1, 2, 3, targetOf s'.memory p⟩
  counter : s'.memory.load Int32 (targetOf s'.memory p).addr = target
  log : s'.log = s.log ++ [.structAllocated]

theorem Placed.complete {A : Allocator} {s s' : Arena} {live : Region} {d r : Nat}
    (h : Placed A s s' d r) (hsound : SoundAt A s.requests live)
    (hlog : s'.log = s.log ++ [.structAllocated]) : Complete s s' live (.ofAddr r) := by
  obtain ⟨-, hdend, -⟩ := hsound.1 d h.target
  obtain ⟨-, hrend, hapart⟩ := hsound.2 d h.target r h.record
  have hrlt : r < addressSpace := by omega
  have hdlt : d < addressSpace := by omega
  have htarget := h.targetOf_eq hrlt
  refine ⟨h.fresh hsound, ?_, ?_, hlog⟩
  · rw [htarget, Pointer.addr_ofAddr hrlt, h.memory, load_store]
  · -- The record is stored after its counter, and beside it.
    have hkept : (store (s.memory.store d CounterRecord.target) r ⟨1, 2, 3, .ofAddr d⟩).load Int32
        d = (s.memory.store d CounterRecord.target).load Int32 d := by
      apply Memory.load_congr
      intro i hi
      apply byte_store_of_not_contains
      intro hin
      refine hapart _ hin (Region.contains_cons.mpr (Or.inl ?_))
      exact ⟨Nat.le_add_right d i, Nat.add_lt_add_left hi d⟩
    rw [htarget, Pointer.addr_ofAddr hdlt, h.memory, hkept, Memory.load_store]

theorem allocate_eq_aborted_iff {A : Allocator} {s : Arena} : allocate A s = .aborted ↔
    A s.requests targetSize 4 = none ∨ A (s.requests + 1) size 8 = none := by
  cases hd : A s.requests targetSize 4 with
  | none => simp only [allocate, Arena.request_of_refused hd, true_or]
  | some d =>
    simp only [allocate, Arena.request_of_granted hd, reduceCtorEq, false_or]
    cases hr : A (s.requests + 1) size 8 with
    | none => simp only [Arena.request, hr]
    | some r => simp only [Arena.request, hr, reduceCtorEq]

end CounterRecord

theorem HeapCall.runIn_allocateCounter {A : Allocator} {s s' : Arena} {p : Pointer}
    (h : CounterRecord.allocate A s = .returned (p, s')) :
    allocateCounter.runIn A s = .returned (.pointer p, s') := by
  simp only [runIn, h]

theorem refusals_answer_null_or_abort (A : Allocator) (s : Arena) (live : Region) :
    (∀ source, A.SoundAt s.requests ((s.memory.stringAt source).length + Block.header) Block.header
        live →
      (HeapCall.allocateText source).SuppliesOrRefuses A s live (s.memory.stringAt source)) ∧
    (∀ count, A.SoundAt s.requests (elementCount count * 8 + Block.header) Block.header live →
      (HeapCall.allocateDoubles count).SuppliesOrRefuses A s live (Block.rampBytes count)) ∧
    let refused := A s.requests CounterRecord.targetSize 4 = none ∨
      A (s.requests + 1) CounterRecord.size 8 = none
    (refused → HeapCall.allocateCounter.runIn A s = .aborted) ∧
    (¬refused → CounterRecord.SoundAt A s.requests live →
      ∃ p s', HeapCall.allocateCounter.runIn A s = .returned (.pointer p, s') ∧
        CounterRecord.Complete s s' live p) := by
  refine ⟨?_, ?_, ?_, ?_⟩
  · intro source h
    exact HeapCall.suppliesOrRefuses_of_supply rfl h
  · intro count h
    rw [← Block.length_rampBytes] at h
    refine HeapCall.suppliesOrRefuses_of_supply ?_ h
    rw [HeapCall.runIn, Block.allocateDoubles_eq]
  · intro h
    simp only [HeapCall.runIn, CounterRecord.allocate_eq_aborted_iff.mpr h]
  · intro h hsound
    rw [← CounterRecord.allocate_eq_aborted_iff] at h
    cases hr : CounterRecord.allocate A s with
    | aborted => exact absurd hr h
    | returned result =>
      obtain ⟨d, r, hp, hplaced⟩ := CounterRecord.allocate_placed hr
      have hcomplete := hplaced.complete hsound (CounterRecord.log_allocate hr)
      exact ⟨result.1, result.2, HeapCall.runIn_allocateCounter hr, hp ▸ hcomplete⟩

def onlyFirst : Allocator := fun request _ _ => if request = 0 then some 4096 else none

theorem soundAt_onlyFirst : CounterRecord.SoundAt onlyFirst 0 [] := by
  constructor
  · rintro a ⟨⟩
    exact ⟨by decide, by decide, fun i _ => Region.not_contains_nil i⟩
  · rintro d ⟨⟩ a ⟨⟩

theorem soundAt_stretches {request size align : Nat}
    (h : 4096 + 64 * request + size < addressSpace) : stretches.SoundAt request size align [] := by
  rintro a ⟨⟩
  exact ⟨Nat.add_pos_left (by decide) _, h, fun i _ => Region.not_contains_nil i⟩

theorem refusals_answer_null_or_abort_onlyFirst :
    let s := Arena.ofMemory .empty
    let t : Arena := { s with requests := 1 }
    (∃ p s', (HeapCall.allocateDoubles 2).runIn onlyFirst s = .returned (.pointer p, s') ∧
      p.isNull = false ∧ Block.Supplied s s' [] p (Block.rampBytes 2)) ∧
    (∃ p t', (HeapCall.allocateText .null).runIn onlyFirst t = .returned (.pointer p, t') ∧
      p.isNull = true ∧ t.Unchanged t') ∧
    HeapCall.allocateCounter.runIn onlyFirst s = .aborted ∧
    ∃ p s', HeapCall.allocateCounter.runIn stretches s = .returned (.pointer p, s') ∧
      CounterRecord.Complete s s' [] p := by
  intro s t
  obtain ⟨-, hdoubles, habort, -⟩ := refusals_answer_null_or_abort onlyFirst s []
  obtain ⟨htext, -⟩ := refusals_answer_null_or_abort onlyFirst t []
  obtain ⟨-, -, -, hcomplete⟩ := refusals_answer_null_or_abort stretches s []
  refine ⟨?_, ?_, habort (Or.inr rfl), hcomplete ?_ ⟨?_, ?_⟩⟩
  · obtain ⟨p, s', hrun, hnull, -, hsupplied⟩ := hdoubles 2 (by
      rintro a ⟨⟩
      exact ⟨by decide, by decide, fun i _ => Region.not_contains_nil i⟩)
    have hp : p.isNull = false := by
      rw [← Bool.not_eq_true, hnull, Block.not_refused_iff, Block.length_rampBytes]
      exact ⟨rfl, _, rfl⟩
    exact ⟨p, s', hrun, hp, (hsupplied hp).1⟩
  · obtain ⟨p, t', hrun, hnull, hsame, -⟩ := htext .null (by rintro a ⟨⟩)
    have hp := hnull.mpr (Or.inr rfl)
    exact ⟨p, t', hrun, hp, hsame hp⟩
  · rintro (h | h) <;> cases h
  · exact soundAt_stretches (by decide)
  · rintro d ⟨⟩ a ⟨⟩
    exact ⟨by decide, by decide, Region.disjoint_of_apart (by decide)⟩

theorem not_every_refusal_answers_null : ¬∀ (A : Allocator) (s : Arena) (live : Region),
    CounterRecord.SoundAt A s.requests live →
      ∃ p s', HeapCall.allocateCounter.runIn A s = .returned (.pointer p, s') ∧
        (p.isNull = true → s.Unchanged s') ∧
        (p.isNull = false → CounterRecord.Complete s s' live p) := by
  intro h
  -- The counter is granted and the record refused.
  obtain ⟨p, s', hrun, -⟩ := h onlyFirst (.ofMemory .empty) [] soundAt_onlyFirst
  cases hrun

end AbiConformance
