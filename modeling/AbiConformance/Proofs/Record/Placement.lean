import AbiConformance.Proofs.Record.Description

namespace AbiConformance

namespace Memory

open LittleEndian

theorem decode_read_int64 (m : Memory) (a : Nat) :
    (decode (m.read a 8) : Int) = (m.load Int64 a).toInt % 2 ^ 64 := by
  have hword := toWord_int64 (m.load Int64 a)
  rwa [toWord_load, Scalar.width_int64] at hword

theorem load_int64_eq_ofInt {m : Memory} {a : Nat} {n : Int}
    (h : (decode (m.read a 8) : Int) = n % 2 ^ 64) : m.load Int64 a = .ofInt n := by
  have hmod : n % ((2 ^ 64 : Nat) : Int) = (m.load Int64 a).toInt % ((2 ^ 64 : Nat) : Int) :=
    h.symm.trans (decode_read_int64 m a)
  symm
  rw [Int64.ofInt_eq_iff_bmod_eq_toInt]
  calc n.bmod (2 ^ 64) = (n % ((2 ^ 64 : Nat) : Int)).bmod (2 ^ 64) := (Int.emod_bmod n _).symm
    _ = (m.load Int64 a).toInt.bmod (2 ^ 64) := by rw [hmod, Int.emod_bmod]
    _ = (m.load Int64 a).toInt := Int64.toInt_bmod _

theorem load_addWord_of_disjoint {α : Type} [Scalar α] {m : Memory} {a b width : Nat} {k : Int}
    (h : b + Scalar.width α ≤ a ∨ a + width ≤ b) :
    (m.addWord a width k).load α b = m.load α b :=
  load_of_read_eq (read_addWord_of_disjoint h)

theorem load_int32_addWord (m : Memory) (a : Nat) (inc : Int32) :
    (m.addWord a 4 inc.toInt).load Int32 a = m.load Int32 a + inc := by
  rw [← modify_int32, load_modify]

end Memory

open Memory

namespace CounterRecord

def addLow (x : Int64) (inc : Int32) : Int64 :=
  .ofInt (x.toInt / 2 ^ 32 * 2 ^ 32 + (x.toInt + inc.toInt) % 2 ^ 32)

def addHigh (x : Int64) (inc : Int32) : Int64 := x + inc.toInt64 * 2 ^ 32

theorem load_addWord_low (m : Memory) (a : Nat) (inc : Int32) :
    (m.addWord a 4 inc.toInt).load Int64 a = addLow (m.load Int64 a) inc := by
  apply load_int64_eq_ofInt
  have hold := decode_read_int64 m a
  have hhigh : (m.addWord a 4 inc.toInt).read (a + 4) 4 = m.read (a + 4) 4 :=
    read_addWord_of_disjoint (Or.inr (Nat.le_refl _))
  have hlow := decode_addWord m a 4 inc.toInt
  have hlt : LittleEndian.decode (m.read a 4) < 256 ^ 4 := by
    simpa using LittleEndian.decode_lt (m.read a 4)
  have hlt' : LittleEndian.decode (m.read (a + 4) 4) < 256 ^ 4 := by
    simpa using LittleEndian.decode_lt (m.read (a + 4) 4)
  rw [read_add m a 4 4, LittleEndian.decode_append, length_read] at hold
  rw [read_add _ a 4 4, LittleEndian.decode_append, length_read, hhigh]
  push_cast at hold ⊢
  rw [hlow]
  omega

theorem addHigh_eq_ofInt (x : Int64) (inc : Int32) :
    addHigh x inc = .ofInt (x.toInt + inc.toInt * 2 ^ 32) := by
  rw [Int64.ofInt_add, Int64.ofInt_mul, Int64.ofInt_toInt, ← Int32.toInt_toInt64,
    Int64.ofInt_toInt]
  rfl

theorem load_addWord_high (m : Memory) (a : Nat) (inc : Int32) :
    (m.addWord (a + 4) 4 inc.toInt).load Int64 a = addHigh (m.load Int64 a) inc := by
  rw [addHigh_eq_ofInt]
  apply load_int64_eq_ofInt
  rw [addWord_high, decode_addWord, decode_read_int64]
  omega

inductive Placement where
  | outside
  | first
  | lowSecond
  | highSecond
  | lowThird
  | highThird
  deriving DecidableEq

namespace Placement

def Of (base : Nat) (d : Pointer) : Placement → Prop
  | outside => (d.span 4).Disjoint [⟨base, size⟩]
  | first => d.span 4 = [⟨base, 4⟩]
  | lowSecond => d.span 4 = [⟨base + 8, 4⟩]
  | highSecond => d.span 4 = [⟨base + 12, 4⟩]
  | lowThird => d.span 4 = [⟨base + 16, 4⟩]
  | highThird => d.span 4 = [⟨base + 20, 4⟩]

def hit (r : CounterRecord) (inc : Int32) : Placement → CounterRecord
  | outside => r
  | first => { r with a := r.a + inc }
  | lowSecond => { r with b := addLow r.b inc }
  | highSecond => { r with b := addHigh r.b inc }
  | lowThird => { r with c := addLow r.c inc }
  | highThird => { r with c := addHigh r.c inc }

def outcome (r : CounterRecord) (inc : Int32) : Placement → CounterRecord
  | outside => r.grow inc
  | first => { r.grow inc with a := r.a + 2 * inc }
  | lowSecond => { r.grow inc with b := addLow (r.b + inc.toInt64) inc }
  | highSecond => { r.grow inc with b := r.b + inc.toInt64 + inc.toInt64 * 2 ^ 32 }
  | lowThird => { r.grow inc with c := addLow (r.c + inc.toInt64) inc }
  | highThird => { r.grow inc with c := r.c + inc.toInt64 + inc.toInt64 * 2 ^ 32 }

theorem hit_grow (w : Placement) (r : CounterRecord) (inc : Int32) :
    w.hit (r.grow inc) inc = w.outcome r inc := by
  have htwice : r.a + inc + inc = r.a + 2 * inc := by
    rw [Int32.add_assoc, Int32.two_mul]
  cases w with
  | first => simp only [hit, outcome, grow, htwice]
  | _ => rfl

theorem outcome_d (w : Placement) (r : CounterRecord) (inc : Int32) :
    (w.outcome r inc).d = r.d := by
  cases w <;> rfl

end Placement

theorem incrementTarget_of_span {d : Pointer} {a : Nat} (m : Memory) (inc : Int32)
    (h : d.span 4 = [⟨a, 4⟩]) : incrementTarget m d inc = m.addWord a 4 inc.toInt := by
  rw [incrementTarget_eq_addAll, h]
  rfl

theorem load_incrementTarget_of_disjoint {m : Memory} {base : Nat} {d : Pointer} (inc : Int32)
    (h : (d.span 4).Disjoint [⟨base, size⟩]) :
    load (incrementTarget m d inc) base = load m base := by
  have hagree : Agree (spans base) m (incrementTarget m d inc) :=
    Agree.of_frame (h.mono_right contains_of_spans) fun _ => byte_incrementTarget_of_not_contains
  exact (load_congr hagree (List.Subset.refl _)).symm

theorem load_incrementTarget_of {m : Memory} {base : Nat} {d : Pointer} {w : Placement}
    (inc : Int32) (h : w.Of base d) :
    load (incrementTarget m d inc) base = w.hit (load m base) inc := by
  cases w with
  | outside => exact load_incrementTarget_of_disjoint inc h
  | first =>
    rw [incrementTarget_of_span m inc h]
    simp only [load, Placement.hit, mk.injEq]
    exact ⟨load_int32_addWord m base inc, load_addWord_of_disjoint (by simp),
      load_addWord_of_disjoint (by simp), load_addWord_of_disjoint (by simp)⟩
  | lowSecond =>
    rw [incrementTarget_of_span m inc h]
    simp only [load, Placement.hit, mk.injEq]
    exact ⟨load_addWord_of_disjoint (by simp), load_addWord_low m (base + 8) inc,
      load_addWord_of_disjoint (by simp), load_addWord_of_disjoint (by simp)⟩
  | highSecond =>
    rw [incrementTarget_of_span m inc h]
    simp only [load, Placement.hit, mk.injEq]
    exact ⟨load_addWord_of_disjoint (by simp), load_addWord_high m (base + 8) inc,
      load_addWord_of_disjoint (by simp), load_addWord_of_disjoint (by simp)⟩
  | lowThird =>
    rw [incrementTarget_of_span m inc h]
    simp only [load, Placement.hit, mk.injEq]
    exact ⟨load_addWord_of_disjoint (by simp), load_addWord_of_disjoint (by simp),
      load_addWord_low m (base + 16) inc, load_addWord_of_disjoint (by simp)⟩
  | highThird =>
    rw [incrementTarget_of_span m inc h]
    simp only [load, Placement.hit, mk.injEq]
    exact ⟨load_addWord_of_disjoint (by simp), load_addWord_of_disjoint (by simp),
      load_addWord_high m (base + 16) inc, load_addWord_of_disjoint (by simp)⟩

theorem load_incrementInPlace_of {m : Memory} {base : Nat} {w : Placement} (inc : Int32)
    (h : w.Of base (load m base).d) :
    load (incrementInPlace m base inc) base = w.outcome (load m base) inc := by
  have hd : (incrementCounters m base inc).load Pointer (base + 24) = (load m base).d :=
    load_pointer_incrementCounters m base inc
  simp only [incrementInPlace]
  rw [hd, load_incrementTarget_of inc h, load_incrementCounters, w.hit_grow]

structure WellAimed (m : Memory) (s : Pointer) : Prop where
  present : s.isNull = false
  aligned : 8 ∣ s.addr
  target_aligned : 4 ∣ (load m s.addr).d.addr
  spared : ((load m s.addr).d.span 4).Disjoint [⟨s.addr + 4, 4⟩, ⟨s.addr + 24, 8⟩]

theorem WellAimed.exists_placement {m : Memory} {s : Pointer} (h : WellAimed m s) :
    ∃ w : Placement, w.Of s.addr (load m s.addr).d := by
  obtain ⟨-, halign, htarget, hspared⟩ := h
  generalize (load m s.addr).d = d at htarget hspared
  cases hd : d.isNull with
  | true =>
    refine ⟨.outside, ?_⟩
    rw [Placement.Of, Pointer.span_of_null hd]
    exact fun i hi => absurd hi (Region.not_contains_nil i)
  | false =>
    have hspan : d.span 4 = [⟨d.addr, 4⟩] := Pointer.span_of_not_null hd
    rw [hspan] at hspared
    have hclear := hspared d.addr (by simp [Span.Contains])
    simp only [Region.contains_cons, Region.not_contains_nil, or_false, Span.Contains] at hclear
    have hcases : (d.addr + 4 ≤ s.addr ∨ s.addr + size ≤ d.addr) ∨ d.addr = s.addr ∨
        d.addr = s.addr + 8 ∨ d.addr = s.addr + 12 ∨ d.addr = s.addr + 16 ∨
        d.addr = s.addr + 20 := by
      simp only [size]
      omega
    rcases hcases with hout | hat | hat | hat | hat | hat
    · refine ⟨.outside, ?_⟩
      rw [Placement.Of, hspan]
      exact Region.disjoint_of_apart (by simpa using hout)
    · exact ⟨.first, by rw [Placement.Of, hspan, hat]⟩
    · exact ⟨.lowSecond, by rw [Placement.Of, hspan, hat]⟩
    · exact ⟨.highSecond, by rw [Placement.Of, hspan, hat]⟩
    · exact ⟨.lowThird, by rw [Placement.Of, hspan, hat]⟩
    · exact ⟨.highThird, by rw [Placement.Of, hspan, hat]⟩

theorem contains_of_counterSpans {base i : Nat} (h : (counterSpans base).Contains i) :
    Region.Contains [⟨base, size⟩] i :=
  contains_of_spans (Region.contains_append.mpr (Or.inl h))

theorem load_target_incrementInPlace {m : Memory} {base : Nat} (inc : Int32)
    (h : ((load m base).d.span 4).Disjoint (counterSpans base))
    (hd : (load m base).d.isNull = false) :
    (incrementInPlace m base inc).load Int32 (load m base).d.addr =
      m.load Int32 (load m base).d.addr + inc := by
  have hpointer : (incrementCounters m base inc).load Pointer (base + 24) = (load m base).d :=
    load_pointer_incrementCounters m base inc
  have hspan := Pointer.span_of_not_null hd (n := 4)
  have hagree : Agree ((load m base).d.span 4) m (incrementCounters m base inc) := by
    rw [incrementCounters_eq_addAll]
    exact Agree.of_frame (fun i hs ht => h i ht hs) fun i hi =>
      byte_addAll_of_not_contains hi fun x => mem_of_mem_spread
  simp only [incrementInPlace]
  rw [hpointer, incrementTarget_of_span _ inc hspan, load_int32_addWord,
    hagree.load (by rw [hspan]; exact List.mem_cons_self) rfl]

theorem incrementInPlace_by_placement {m : Memory} {s : Pointer} (inc : Int32)
    (h : WellAimed m s) :
    let r := load m s.addr
    let m' := ((Call.incrementInPlace s inc).run m).2
    (∃ w : Placement, w.Of s.addr r.d) ∧
      (∀ w : Placement, w.Of s.addr r.d → load m' s.addr = w.outcome r inc) ∧
      (Placement.outside.Of s.addr r.d → r.d.isNull = false →
        m'.load Int32 r.d.addr = m.load Int32 r.d.addr + inc) ∧
      (load m' s.addr).d = r.d ∧
      ∀ i, ¬(counterSpans s.addr ++ r.d.span 4).Contains i → m'.byte i = m.byte i := by
  simp only [Call.run]
  refine ⟨h.exists_placement, fun w => load_incrementInPlace_of inc, ?_, ?_, ?_⟩
  · intro hout hd
    exact load_target_incrementInPlace inc (hout.mono_right contains_of_counterSpans) hd
  · obtain ⟨w, hw⟩ := h.exists_placement
    rw [load_incrementInPlace_of inc hw, w.outcome_d]
  · intro i hi
    rw [incrementInPlace_eq_addAll]
    exact byte_addAll_of_not_contains hi fun x => mem_of_mem_spread

def nearCarry : Memory :=
  CounterRecord.store .empty 64 ⟨0x7FFFFFFF, 0xFFFFFFF9, -1, .ofAddr 72⟩

theorem incrementInPlace_by_placement_nearCarry :
    WellAimed nearCarry (.ofAddr 64) ∧
      load ((Call.incrementInPlace (.ofAddr 64) 5).run nearCarry).2 64 =
        ⟨-0x7FFFFFFC, 3, 4, .ofAddr 72⟩ := by
  have h : WellAimed nearCarry (.ofAddr 64) := by
    refine ⟨by decide, by decide, by decide +kernel, ?_⟩
    apply Region.disjoint_of_apart
    decide +kernel
  have hload := (incrementInPlace_by_placement 5 h).2.1 .lowSecond rfl
  exact ⟨h, hload.trans (by decide +kernel)⟩

end CounterRecord

end AbiConformance
