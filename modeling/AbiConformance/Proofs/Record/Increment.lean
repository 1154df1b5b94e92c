import AbiConformance.Record.Counter
import AbiConformance.Proofs.Memory.Addition

namespace AbiConformance.CounterRecord

open Memory

def targetOf (m : Memory) (p : Pointer) : Pointer := (load m p.addr).d

def counterSpans (a : Nat) : Region := [⟨a, 4⟩, ⟨a + 8, 8⟩, ⟨a + 16, 8⟩]

def incrementSpans (m : Memory) (p : Pointer) : Region :=
  counterSpans p.addr ++ (targetOf m p).span 4

theorem incrementCounters_eq_addAll (m : Memory) (a : Nat) (inc : Int32) :
    incrementCounters m a inc = m.addAll (spread (counterSpans a) inc.toInt) := by
  simp only [incrementCounters, modify_int32, modify_int64]
  rfl

theorem incrementTarget_eq_addAll (m : Memory) (d : Pointer) (inc : Int32) :
    incrementTarget m d inc = m.addAll (spread (d.span 4) inc.toInt) := by
  cases hd : d.isNull with
  | true =>
    rw [incrementTarget, if_pos hd, Pointer.span_of_null hd]
    rfl
  | false =>
    rw [incrementTarget, if_neg (Bool.eq_false_iff.mp hd), Pointer.span_of_not_null hd]
    exact modify_int32 m d.addr inc

theorem byte_incrementTarget_of_not_contains {m : Memory} {d : Pointer} {inc : Int32} {i : Nat}
    (h : ¬(d.span 4).Contains i) : (incrementTarget m d inc).byte i = m.byte i := by
  rw [incrementTarget_eq_addAll]
  exact byte_addAll_of_not_contains h fun x => mem_of_mem_spread

theorem load_pointer_incrementCounters (m : Memory) (a : Nat) (inc : Int32) :
    (incrementCounters m a inc).load Pointer (a + 24) = m.load Pointer (a + 24) := by
  rw [incrementCounters_eq_addAll]
  apply load_of_read_eq
  apply read_addAll_of_disjoint
  intro x hx
  simp only [spread, counterSpans, List.map_cons, List.map_nil, List.mem_cons, List.not_mem_nil,
    or_false] at hx
  rcases hx with rfl | rfl | rfl <;> right <;> simp only <;> omega

theorem incrementInPlace_eq_addAll (m : Memory) (p : Pointer) (inc : Int32) :
    incrementInPlace m p.addr inc = m.addAll (spread (incrementSpans m p) inc.toInt) := by
  have hd : (incrementCounters m p.addr inc).load Pointer (p.addr + 24) = targetOf m p :=
    load_pointer_incrementCounters m p.addr inc
  simp only [incrementInPlace]
  rw [hd, incrementTarget_eq_addAll, incrementCounters_eq_addAll, ← addAll_append]
  simp [spread, incrementSpans]

theorem byte_incrementInPlace_of_not_contains {m : Memory} {p : Pointer} {inc : Int32} {i : Nat}
    (h : ¬(incrementSpans m p).Contains i) : (incrementInPlace m p.addr inc).byte i = m.byte i := by
  rw [incrementInPlace_eq_addAll]
  exact byte_addAll_of_not_contains h fun x => mem_of_mem_spread

end AbiConformance.CounterRecord
