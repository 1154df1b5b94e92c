import AbiConformance.Proofs.Record.Placement

namespace AbiConformance

namespace Memory

theorem store_load {α : Type} [Scalar α] (m : Memory) (a : Nat) : m.store a (m.load α a) = m := by
  have hbytes : Scalar.encode (m.load α a) = m.read a (Scalar.width α) :=
    Scalar.encode_decode (length_read m a _)
  rw [store, hbytes, write_read]

end Memory

open Memory

namespace CounterRecord

theorem addLow_eq_self {x : Int64} {inc : Int32} (h : addLow x inc = x) : inc = 0 := by
  have hx := x.le_toInt
  have hx' := x.toInt_lt
  have hinc := inc.le_toInt
  have hinc' := inc.toInt_lt
  have hint := congrArg Int64.toInt h
  rw [addLow, Int64.toInt_ofInt_of_le (by omega) (by omega)] at hint
  apply Int32.toInt_inj.mp
  change inc.toInt = 0
  omega

theorem addHigh_eq_self {x : Int64} {inc : Int32} (h : addHigh x inc = x) : inc = 0 := by
  have hinc := inc.le_toInt
  have hinc' := inc.toInt_lt
  rw [addHigh_eq_ofInt, Int64.ofInt_eq_iff_bmod_eq_toInt] at h
  have hmod := Int.bmod_emod (x := x.toInt + inc.toInt * 2 ^ 32) (m := 2 ^ 64)
  rw [h] at hmod
  apply Int32.toInt_inj.mp
  change inc.toInt = 0
  omega

theorem Placement.hit_eq_self {w : Placement} {r : CounterRecord} {inc : Int32}
    (h : w.hit r inc = r) (hw : w ≠ .outside) : inc = 0 := by
  obtain ⟨a, b, c, d⟩ := r
  cases w with
  | outside => exact absurd rfl hw
  | first =>
    have ha : a + inc = a := congrArg CounterRecord.a h
    simpa using ha
  | lowSecond => exact addLow_eq_self (congrArg CounterRecord.b h)
  | highSecond => exact addHigh_eq_self (congrArg CounterRecord.b h)
  | lowThird => exact addLow_eq_self (congrArg CounterRecord.c h)
  | highThird => exact addHigh_eq_self (congrArg CounterRecord.c h)

theorem load_target_incrementTarget (m : Memory) {d : Pointer} (inc : Int32)
    (h : d.isNull = false) :
    (incrementTarget m d inc).load Int32 d.addr = m.load Int32 d.addr + inc := by
  rw [incrementTarget_of_span m inc (Pointer.span_of_not_null h), load_int32_addWord]

theorem store_grow (m : Memory) (base : Nat) (inc : Int32) :
    store m base ((load m base).grow inc) = incrementCounters m base inc := by
  have hcounters : incrementCounters m base inc =
      ((m.store base (m.load Int32 base + inc)).store (base + 8)
        (m.load Int64 (base + 8) + inc.toInt64)).store (base + 16)
        (m.load Int64 (base + 16) + inc.toInt64) := by
    simp (disch := (simp <;> omega)) only [incrementCounters, Memory.modify, load_store_of_disjoint]
  have hpointer := load_pointer_incrementCounters m base inc
  calc store m base ((load m base).grow inc)
      = (incrementCounters m base inc).store (base + 24) (m.load Pointer (base + 24)) := by
        rw [hcounters]
        rfl
    _ = incrementCounters m base inc := by rw [← hpointer, store_load]

theorem compatible_of_outside {base : Nat} {d : Pointer} (h : Placement.outside.Of base d) :
    ∀ x ∈ counterSpans base ++ d.span 4, ∀ y ∈ counterSpans base ++ d.span 4,
      x.Compatible y := by
  have hplace : ∀ x ∈ counterSpans base ++ d.span 4,
      (x.addr = base ∧ x.size = 4) ∨ (x.addr = base + 8 ∧ x.size = 8) ∨
        (x.addr = base + 16 ∧ x.size = 8) ∨
        (x.addr = d.addr ∧ x.size = 4 ∧ (d.addr + 4 ≤ base ∨ base + size ≤ d.addr)) := by
    intro x hx
    rcases List.mem_append.mp hx with hx | hx
    · simp only [counterSpans, List.mem_cons, List.not_mem_nil, or_false] at hx
      rcases hx with rfl | rfl | rfl <;> simp
    · cases hd : d.isNull with
      | true => simp [hd] at hx
      | false =>
        rw [Placement.Of, Pointer.span_of_not_null hd] at h
        rw [Pointer.span_of_not_null hd] at hx
        have hapart := Region.apart_of_disjoint (by decide) (by decide) h
        obtain rfl := List.mem_singleton.mp hx
        exact Or.inr (Or.inr (Or.inr ⟨rfl, rfl, hapart⟩))
  intro x hx y hy
  have hxp := hplace x hx
  have hyp := hplace y hy
  simp only [Span.Compatible, size] at hxp hyp ⊢
  omega

theorem incrementCounters_incrementTarget {m : Memory} {s : Pointer} (inc : Int32)
    (h : Placement.outside.Of s.addr (targetOf m s)) :
    incrementCounters (incrementTarget m (targetOf m s) inc) s.addr inc =
      incrementInPlace m s.addr inc := by
  have hperm : (spread (incrementSpans m s) inc.toInt).Perm
      (spread ((targetOf m s).span 4) inc.toInt ++ spread (counterSpans s.addr) inc.toInt) := by
    simp only [incrementSpans, spread, List.map_append]
    exact List.perm_append_comm
  rw [incrementInPlace_eq_addAll, incrementTarget_eq_addAll, incrementCounters_eq_addAll,
    ← addAll_append]
  exact (addAll_perm m hperm fun x hx y hy =>
    compatible_of_mem_spread (compatible_of_outside h) hx hy).symm

def putBack (m : Memory) (s : Pointer) (inc : Int32) : Memory :=
  store (incrementTarget m (targetOf m s) inc) s.addr ((load m s.addr).grow inc)

theorem putBack_of_outside {m : Memory} {s : Pointer} (inc : Int32)
    (h : Placement.outside.Of s.addr (targetOf m s)) :
    putBack m s inc = incrementInPlace m s.addr inc := by
  rw [putBack, ← load_incrementTarget_of_disjoint inc h, store_grow,
    incrementCounters_incrementTarget inc h]

theorem incrementInPlace_zero (m : Memory) (s : Pointer) : incrementInPlace m s.addr 0 = m := by
  rw [incrementInPlace_eq_addAll]
  exact addAll_spread_zero m _

theorem putBack_zero (m : Memory) (s : Pointer) : putBack m s 0 = m := by
  have htarget : incrementTarget m (targetOf m s) 0 = m := by
    rw [incrementTarget_eq_addAll]
    exact addAll_spread_zero m _
  rw [putBack, htarget, store_grow, incrementCounters_eq_addAll]
  exact addAll_spread_zero m _

theorem load_store (m : Memory) (base : Nat) (r : CounterRecord) :
    load (store m base r) base = r := by
  simp (disch := (simp <;> omega)) only [load, store, Memory.load_store, load_store_of_disjoint]

theorem load_putBack (m : Memory) (s : Pointer) (inc : Int32) :
    load (putBack m s inc) s.addr = (load m s.addr).grow inc :=
  load_store _ _ _

theorem WellAimed.outside_of_disjoint {m : Memory} {s : Pointer} (h : WellAimed m s)
    (hd : ((targetOf m s).span 4).Disjoint (counterSpans s.addr)) :
    Placement.outside.Of s.addr (targetOf m s) := by
  obtain ⟨w, hw⟩ := h.exists_placement
  have hmeet : ∀ a, (targetOf m s).span 4 = [⟨a, 4⟩] → ¬(counterSpans s.addr).Contains a := by
    intro a ha
    rw [ha] at hd
    exact hd a (by simp [Span.Contains])
  cases w with
  | outside => exact hw
  | _ => exact absurd (by simp [counterSpans, Span.Contains]) (hmeet _ hw)

theorem WellAimed.putBack_eq_iff {m : Memory} {s : Pointer} (h : WellAimed m s) (inc : Int32) :
    putBack m s inc = incrementInPlace m s.addr inc ↔
      inc = 0 ∨ ((targetOf m s).span 4).Disjoint (counterSpans s.addr) := by
  constructor
  · intro heq
    obtain ⟨w, hw⟩ := h.exists_placement
    by_cases hout : w = .outside
    · subst hout
      exact Or.inr (hw.mono_right contains_of_counterSpans)
    · have hload := congrArg (load · s.addr) heq
      simp only [load_putBack, load_incrementInPlace_of inc hw, ← w.hit_grow] at hload
      exact Or.inl (Placement.hit_eq_self hload.symm hout)
  · rintro (rfl | hd)
    · rw [putBack_zero, incrementInPlace_zero]
    · exact putBack_of_outside inc (h.outside_of_disjoint hd)

theorem run_incrementCopy (m : Memory) (r : CounterRecord) (inc : Int32) :
    (Call.incrementCopy r inc).run m = (.counter (r.grow inc), incrementTarget m r.d inc) :=
  rfl

theorem run_incrementInPlace (m : Memory) (s : Pointer) (inc : Int32) :
    (Call.incrementInPlace s inc).run m = (.nothing, incrementInPlace m s.addr inc) :=
  rfl

theorem store_counter (m : Memory) (s : Pointer) (r : CounterRecord) :
    (Value.counter r).store m s = store m s.addr r :=
  rfl

theorem first_ne_twice {x inc : Int32} (h : inc ≠ 0) : x + inc ≠ x + 2 * inc := by
  intro heq
  rw [Int32.two_mul, ← Int32.add_assoc] at heq
  exact h (by simpa using heq.symm)

theorem incrementCopy_against_incrementInPlace {m : Memory} {s : Pointer} (inc : Int32)
    (h : WellAimed m s) :
    let r := load m s.addr
    let copied := (Call.incrementCopy r inc).run m
    let stored := copied.1.store copied.2 s
    let placed := ((Call.incrementInPlace s inc).run m).2
    copied.1 = .counter ⟨r.a + inc, r.b + inc.toInt64, r.c + inc.toInt64, r.d⟩ ∧
      (∀ i, ¬(r.d.span 4).Contains i → copied.2.byte i = m.byte i) ∧
      (r.d.isNull = false → copied.2.load Int32 r.d.addr = m.load Int32 r.d.addr + inc) ∧
      (stored = placed ↔ inc = 0 ∨ (r.d.span 4).Disjoint (counterSpans s.addr)) ∧
      (r.d = s → (load stored s.addr).a = r.a + inc ∧ (load placed s.addr).a = r.a + 2 * inc ∧
        (inc ≠ 0 → (load stored s.addr).a ≠ (load placed s.addr).a)) := by
  simp only [run_incrementCopy, run_incrementInPlace, store_counter]
  refine ⟨rfl, fun i => byte_incrementTarget_of_not_contains, load_target_incrementTarget m inc,
    h.putBack_eq_iff inc, ?_⟩
  intro hd
  have hfirst : Placement.first.Of s.addr (load m s.addr).d := by
    rw [Placement.Of, hd, Pointer.span_of_not_null h.present]
  have hstored := congrArg CounterRecord.a (load_putBack m s inc)
  have hplaced := congrArg CounterRecord.a (load_incrementInPlace_of inc hfirst)
  exact ⟨hstored, hplaced, fun hinc heq =>
    first_ne_twice hinc (hstored.symm.trans (heq.trans hplaced))⟩

def selfAimed : Memory := CounterRecord.store .empty 64 ⟨7, -1, 3, .ofAddr 64⟩

theorem incrementCopy_against_incrementInPlace_selfAimed :
    let s := Pointer.ofAddr 64
    let copied := (Call.incrementCopy (load selfAimed s.addr) (-9)).run selfAimed
    let stored := copied.1.store copied.2 s
    let placed := ((Call.incrementInPlace s (-9)).run selfAimed).2
    WellAimed selfAimed s ∧ copied.1 = .counter ⟨-2, -10, -6, s⟩ ∧
      copied.2.load Int32 64 = -2 ∧ stored ≠ placed ∧
      (load stored 64).a = -2 ∧ (load placed 64).a = -11 := by
  have h : WellAimed selfAimed (.ofAddr 64) := by
    refine ⟨by decide, by decide, by decide +kernel, ?_⟩
    apply Region.disjoint_of_apart
    decide +kernel
  obtain ⟨hvalue, -, htarget, hiff, hself⟩ := incrementCopy_against_incrementInPlace (-9) h
  obtain ⟨hstored, hplaced, hne⟩ := hself (by decide +kernel)
  refine ⟨h, hvalue.trans (by decide +kernel), (htarget (by decide +kernel)).trans ?_, ?_,
    hstored.trans (by decide +kernel), hplaced.trans (by decide +kernel)⟩
  · decide +kernel
  · exact fun heq => hne (by decide) (congrArg (fun m => (load m 64).a) heq)

end CounterRecord

end AbiConformance
