import AbiConformance.Call.Basic
import AbiConformance.Proofs.Record.Increment

namespace AbiConformance.CounterRecord

open Memory

/-- Null, an aligned integer outside every record, a first counter, or the high half of a wider
counter. -/
def Aims (records : List Pointer) (d : Pointer) : Prop :=
  d.isNull = true ∨
    (4 ∣ d.addr ∧ ∀ q ∈ records, d.addr + 4 ≤ q.addr ∨ q.addr + size ≤ d.addr) ∨
    ∃ q ∈ records, d.addr = q.addr ∨ d.addr = q.addr + 12 ∨ d.addr = q.addr + 20

structure Aliasing (m : Memory) (records : List Pointer) : Prop where
  apart : ∀ p ∈ records, ∀ q ∈ records,
    p = q ∨ p.addr + size ≤ q.addr ∨ q.addr + size ≤ p.addr
  aims : ∀ p ∈ records, Aims records (targetOf m p)

inductive Located (records : List Pointer) : Span → Prop
  | counter {q : Pointer} {x : Span} : q ∈ records → x ∈ counterSpans q.addr → Located records x
  | high {q : Pointer} {o : Nat} : q ∈ records → o = 12 ∨ o = 20 → Located records ⟨q.addr + o, 4⟩
  | outside {a : Nat} : 4 ∣ a → (∀ q ∈ records, a + 4 ≤ q.addr ∨ q.addr + size ≤ a) →
      Located records ⟨a, 4⟩

theorem Located.inside_or_outside {records : List Pointer} {x : Span} (h : Located records x) :
    (∃ q ∈ records, (x.addr = q.addr ∧ x.size = 4) ∨
      (x.addr = q.addr + 8 ∧ x.size = 8) ∨ (x.addr = q.addr + 16 ∧ x.size = 8) ∨
      (x.addr = q.addr + 12 ∧ x.size = 4) ∨ (x.addr = q.addr + 20 ∧ x.size = 4)) ∨
    (x.size = 4 ∧ 4 ∣ x.addr ∧ ∀ q ∈ records, x.addr + 4 ≤ q.addr ∨ q.addr + size ≤ x.addr) := by
  cases h with
  | @counter q x hq hx =>
    refine Or.inl ⟨q, hq, ?_⟩
    simp only [counterSpans, List.mem_cons, List.not_mem_nil, or_false] at hx
    rcases hx with rfl | rfl | rfl <;> simp
  | @high q o hq ho =>
    refine Or.inl ⟨q, hq, ?_⟩
    rcases ho with rfl | rfl <;> simp
  | outside ha hout => exact Or.inr ⟨rfl, ha, hout⟩

theorem Aims.located {records : List Pointer} {d : Pointer} (h : Aims records d)
    (hd : d.isNull = false) : Located records ⟨d.addr, 4⟩ := by
  rcases h with hnull | ⟨halign, hout⟩ | ⟨q, hq, hat | hat | hat⟩
  · exact absurd hnull (Bool.eq_false_iff.mp hd)
  · exact .outside halign hout
  · rw [hat]
    exact .counter hq (by simp [counterSpans])
  · rw [hat]
    exact .high hq (Or.inl rfl)
  · rw [hat]
    exact .high hq (Or.inr rfl)

theorem located_of_mem {m : Memory} {records : List Pointer} {p : Pointer} {x : Span}
    (h : Aliasing m records) (hp : p ∈ records) (hx : x ∈ incrementSpans m p) :
    Located records x := by
  rcases List.mem_append.mp hx with hx | hx
  · exact .counter hp hx
  · cases hd : (targetOf m p).isNull with
    | true => simp [hd] at hx
    | false =>
      rw [Pointer.span_of_not_null hd] at hx
      obtain rfl := List.mem_singleton.mp hx
      exact (h.aims p hp).located hd

theorem Located.compatible {m : Memory} {records : List Pointer} {x y : Span}
    (h : Aliasing m records) (hx : Located records x) (hy : Located records y) :
    x.Compatible y := by
  simp only [Span.Compatible]
  rcases hx.inside_or_outside with ⟨p, hp, hpx⟩ | ⟨hwx, hax, hox⟩
  · rcases hy.inside_or_outside with ⟨q, hq, hqy⟩ | ⟨hwy, hay, hoy⟩
    · rcases h.apart p hp q hq with rfl | hpq
      · omega
      · simp only [size] at hpq
        omega
    · have hout := hoy p hp
      simp only [size] at hout
      omega
  · rcases hy.inside_or_outside with ⟨q, hq, hqy⟩ | ⟨hwy, hay, hoy⟩
    · have hout := hox q hq
      simp only [size] at hout
      omega
    · omega

theorem Located.apart_pointer {m : Memory} {records : List Pointer} {x : Span} {q : Pointer}
    (h : Aliasing m records) (hx : Located records x) (hq : q ∈ records) :
    q.addr + 24 + 8 ≤ x.addr ∨ x.addr + x.size ≤ q.addr + 24 := by
  rcases hx.inside_or_outside with ⟨p, hp, hpx⟩ | ⟨hwx, -, hox⟩
  · rcases h.apart p hp q hq with rfl | hpq
    · omega
    · simp only [size] at hpq
      omega
  · have hout := hox q hq
    simp only [size] at hout
    omega

theorem targetOf_addAll {m : Memory} {records : List Pointer} {q : Pointer}
    (h : Aliasing m records) (hq : q ∈ records) {xs : List Addend}
    (hxs : ∀ x ∈ xs, Located records x.word) : targetOf (m.addAll xs) q = targetOf m q := by
  apply load_of_read_eq
  apply read_addAll_of_disjoint
  intro x hx
  exact (hxs x hx).apart_pointer h hq

def incrementEach (m : Memory) (calls : List (Pointer × Int32)) : Memory :=
  calls.foldl (fun m c => ((Call.incrementInPlace c.1 c.2).run m).2) m

def callAddends (m : Memory) (c : Pointer × Int32) : List Addend :=
  spread (incrementSpans m c.1) c.2.toInt

theorem located_of_mem_callAddends {m : Memory} {records : List Pointer} {c : Pointer × Int32}
    {x : Addend} (h : Aliasing m records) (hc : c.1 ∈ records) (hx : x ∈ callAddends m c) :
    Located records x.word := by
  obtain ⟨p, hp, rfl⟩ := List.mem_map.mp hx
  exact located_of_mem h hc hp

theorem Aliasing.of_targets {m m' : Memory} {records : List Pointer} (h : Aliasing m records)
    (ht : ∀ q ∈ records, targetOf m' q = targetOf m q) : Aliasing m' records where
  apart := h.apart
  aims := by
    intro p hp
    rw [ht p hp]
    exact h.aims p hp

theorem callAddends_congr {m m' : Memory} {c : Pointer × Int32}
    (h : targetOf m' c.1 = targetOf m c.1) : callAddends m' c = callAddends m c := by
  rw [callAddends, callAddends, incrementSpans, incrementSpans, h]

theorem incrementEach_cons (m : Memory) (c : Pointer × Int32) (cs : List (Pointer × Int32)) :
    incrementEach m (c :: cs) = incrementEach (m.addAll (callAddends m c)) cs := by
  simp only [incrementEach, List.foldl_cons, Call.run, incrementInPlace_eq_addAll, callAddends]

theorem incrementEach_eq_addAll {m : Memory} {records : List Pointer}
    {calls : List (Pointer × Int32)} (h : Aliasing m records) (hc : ∀ c ∈ calls, c.1 ∈ records) :
    incrementEach m calls = m.addAll (calls.flatMap (callAddends m)) := by
  induction calls generalizing m with
  | nil => rfl
  | cons c cs ih =>
    obtain ⟨hfirst, hrest⟩ := List.forall_mem_cons.mp hc
    have hlocated : ∀ x ∈ callAddends m c, Located records x.word :=
      fun x hx => located_of_mem_callAddends h hfirst hx
    have htargets : ∀ q ∈ records, targetOf (m.addAll (callAddends m c)) q = targetOf m q :=
      fun q hq => targetOf_addAll h hq hlocated
    have hsame : cs.flatMap (callAddends (m.addAll (callAddends m c))) =
        cs.flatMap (callAddends m) :=
      List.flatMap_congr fun c' hc' => callAddends_congr (htargets c'.1 (hrest c' hc'))
    rw [incrementEach_cons, ih (h.of_targets htargets) hrest, hsame, List.flatMap_cons,
      addAll_append]

theorem compatible_of_mem_calls {m : Memory} {records : List Pointer}
    {calls : List (Pointer × Int32)} (h : Aliasing m records) (hc : ∀ c ∈ calls, c.1 ∈ records) :
    ∀ x ∈ calls.flatMap (callAddends m), ∀ y ∈ calls.flatMap (callAddends m),
      x.word.Compatible y.word := by
  intro x hx y hy
  obtain ⟨c, hcx, hx⟩ := List.mem_flatMap.mp hx
  obtain ⟨d, hdy, hy⟩ := List.mem_flatMap.mp hy
  exact (located_of_mem_callAddends h (hc c hcx) hx).compatible h
    (located_of_mem_callAddends h (hc d hdy) hy)

theorem incrementEach_perm {m : Memory} {records : List Pointer}
    {calls calls' : List (Pointer × Int32)} (h : Aliasing m records)
    (hc : ∀ c ∈ calls, c.1 ∈ records) (hp : calls'.Perm calls) :
    incrementEach m calls' = incrementEach m calls := by
  have hc' : ∀ c ∈ calls', c.1 ∈ records := fun c hmem => hc c (hp.subset hmem)
  rw [incrementEach_eq_addAll h hc, incrementEach_eq_addAll h hc']
  exact addAll_perm m (hp.flatMap_right _) (compatible_of_mem_calls h hc')

theorem incrementEach_pair {m : Memory} {records : List Pointer} {p : Pointer} (i j : Int32)
    (h : Aliasing m records) (hp : p ∈ records) :
    incrementEach m [(p, i), (p, j)] =
      m.addAll (spread (incrementSpans m p) (i.toInt + j.toInt)) := by
  rw [incrementEach_eq_addAll h (by simp [hp]), ← addAll_spread_add]
  · simp [callAddends]
  · intro x hx y hy
    exact (located_of_mem h hp hx).compatible h (located_of_mem h hp hy)

theorem incrementEach_merge {m : Memory} {records : List Pointer} {p : Pointer} {i j : Int32}
    (h : Aliasing m records) (hp : p ∈ records) (hfit : (i + j).toInt = i.toInt + j.toInt) :
    incrementEach m [(p, i), (p, j)] = incrementEach m [(p, i + j)] := by
  rw [incrementEach_pair i j h hp, incrementEach_eq_addAll h (by simp [hp]), ← hfit]
  simp [callAddends]

theorem toInt_neg_add_toInt {inc : Int32} (h : inc ≠ Int32.minValue) :
    inc.toInt + (-inc).toInt = 0 := by
  have hne : inc.toInt ≠ -2 ^ 31 := fun he => h (Int32.toInt_inj.mp he)
  have hlow := inc.le_toInt
  have hhigh := inc.toInt_lt
  rw [Int32.toInt_neg, Int.bmod_eq_of_le] <;> omega

theorem incrementEach_undo {m : Memory} {records : List Pointer} {p : Pointer} {inc : Int32}
    (h : Aliasing m records) (hp : p ∈ records) (hinc : inc ≠ Int32.minValue) :
    incrementEach m [(p, inc), (p, -inc)] = m := by
  rw [incrementEach_pair inc (-inc) h hp, toInt_neg_add_toInt hinc, addAll_spread_zero]

theorem incrementEach_append (m : Memory) (xs ys : List (Pointer × Int32)) :
    incrementEach m (xs ++ ys) = incrementEach (incrementEach m xs) ys :=
  List.foldl_append

theorem incrementEach_pair_then {m m' : Memory} {p : Pointer} {i j : Int32}
    {rest calls : List (Pointer × Int32)} (h : Aliasing m (p :: rest.map Prod.fst))
    (hp : calls.Perm ((p, i) :: (p, j) :: rest)) (hpair : incrementEach m [(p, i), (p, j)] = m') :
    incrementEach m calls = incrementEach m' rest := by
  have hmem : ∀ c ∈ (p, i) :: (p, j) :: rest, c.1 ∈ p :: rest.map Prod.fst := by
    intro c hc
    rcases List.mem_cons.mp hc with rfl | hc
    · exact List.mem_cons_self
    · rcases List.mem_cons.mp hc with rfl | hc
      · exact List.mem_cons_self
      · exact List.mem_cons_of_mem _ (List.mem_map_of_mem hc)
  rw [incrementEach_perm h hmem hp]
  exact (incrementEach_append m [(p, i), (p, j)] rest).trans (by rw [hpair])

def lowHalfTarget : Memory := CounterRecord.store .empty 64 ⟨0, 0xFFFFFFFE, 0, .ofAddr 72⟩

theorem incrementEach_order_and_merge :
    (∀ (m : Memory) (calls calls' : List (Pointer × Int32)),
      Aliasing m (calls.map Prod.fst) → calls'.Perm calls →
      incrementEach m calls' = incrementEach m calls) ∧
    (∀ (m : Memory) (p : Pointer) (i j : Int32) (rest calls calls' : List (Pointer × Int32)),
      Aliasing m (p :: rest.map Prod.fst) → (i + j).toInt = i.toInt + j.toInt →
      calls.Perm ((p, i) :: (p, j) :: rest) → calls'.Perm ((p, i + j) :: rest) →
      incrementEach m calls = incrementEach m calls') ∧
    (∀ (m : Memory) (p : Pointer) (inc : Int32) (rest calls : List (Pointer × Int32)),
      Aliasing m (p :: rest.map Prod.fst) → inc ≠ Int32.minValue →
      calls.Perm ((p, inc) :: (p, -inc) :: rest) → incrementEach m calls = incrementEach m rest) ∧
    ∃ (m : Memory) (p : Pointer) (i j : Int32), p.isNull = false ∧ 8 ∣ p.addr ∧
      targetOf m p = .ofAddr (p.addr + 8) ∧ (i + j).toInt = i.toInt + j.toInt ∧
      (load (incrementEach m [(p, i), (p, j)]) p.addr).b ≠
        (load (incrementEach m [(p, i + j)]) p.addr).b := by
  refine ⟨?_, ?_, ?_, ?_⟩
  · intro m calls calls' h hp
    exact incrementEach_perm h (fun c hc => List.mem_map_of_mem hc) hp
  · intro m p i j rest calls calls' h hfit hp hp'
    have hmem : ∀ c ∈ (p, i + j) :: rest, c.1 ∈ p :: rest.map Prod.fst := by
      intro c hc
      simpa using List.mem_map_of_mem (f := Prod.fst) hc
    have hpair := incrementEach_merge h List.mem_cons_self hfit
    rw [incrementEach_pair_then h hp hpair, incrementEach_perm h hmem hp']
    exact (incrementEach_append m [(p, i + j)] rest).symm
  · intro m p inc rest calls h hinc hp
    exact incrementEach_pair_then h hp (incrementEach_undo h List.mem_cons_self hinc)
  · refine ⟨lowHalfTarget, .ofAddr 64, 1, -1, rfl, ?_, rfl, rfl, ?_⟩
    · decide
    · decide +kernel

def crossedTargets : Memory :=
  CounterRecord.store (CounterRecord.store .empty 64 ⟨0x7FFFFFFF, 0xFFFFFFFF, -1, .ofAddr 108⟩) 96
    ⟨7, -1, 3, .ofAddr 64⟩

theorem aliasing_crossedTargets : Aliasing crossedTargets [.ofAddr 64, .ofAddr 96] where
  apart := by decide
  aims := by
    unfold Aims
    decide

theorem incrementEach_order_and_merge_crossedTargets :
    let p := Pointer.ofAddr 64
    let q := Pointer.ofAddr 96
    Aliasing crossedTargets [p, q] ∧
      incrementEach crossedTargets [(q, -3), (p, 5)] =
        incrementEach crossedTargets [(p, 5), (q, -3)] ∧
      incrementEach crossedTargets [(p, 1), (q, 9), (p, 3)] =
        incrementEach crossedTargets [(q, 9), (p, 4)] ∧
      incrementEach crossedTargets [(p, 8), (q, 2), (p, -8)] =
        incrementEach crossedTargets [(q, 2)] := by
  have h := incrementEach_order_and_merge
  have ha := aliasing_crossedTargets
  refine ⟨ha, h.1 _ [_, _] _ ha (.swap ..), ?_, ?_⟩
  · exact h.2.1 _ _ 1 3 [(.ofAddr 96, 9)] _ _ ha rfl (.cons _ (.swap ..)) (.swap ..)
  · exact h.2.2.1 _ _ 8 [(.ofAddr 96, 2)] _ ha (by decide) (.cons _ (.swap ..))

end AbiConformance.CounterRecord
