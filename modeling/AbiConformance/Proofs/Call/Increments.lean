import AbiConformance.Proofs.Call.Footprint
import Mathlib.Logic.Function.Iterate

namespace AbiConformance

namespace Memory

variable {m : Memory} {data : Pointer} {count : Int32}

theorem incrementArray_of_no_elements (h : data.isNull = true ∨ elementCount count = 0) :
    m.incrementArray data count = m := by
  have hslice : m.slice Binary64 data (elementCount count) = [] := by
    rcases h with hnull | hnone
    · simp [slice, hnull]
    · simp [hnone]
  rw [incrementArray, hslice]
  exact m.write_nil data.addr

theorem load_incrementArray (h : data.isNull = false) {i : Nat} (hi : i < elementCount count) :
    (m.incrementArray data count).load Binary64 (data.addr + i * 8) =
      m.load Binary64 (data.addr + i * 8) + Binary64.one := by
  have hlength : i < ((m.loadArray Binary64 data.addr (elementCount count)).map
      (· + Binary64.one)).length := by simpa using hi
  have hload := load_storeArray m data.addr _ i hlength
  rw [incrementArray, slice_of_not_null h]
  simpa [loadArray] using hload

theorem load_incrementArray_of_apart {a : Nat} (h : data.isNull = false)
    (ha : a + 8 ≤ data.addr ∨ data.addr + elementCount count * 8 ≤ a) :
    (m.incrementArray data count).load Binary64 a = m.load Binary64 a := by
  apply load_congr
  intro i hi
  have hi8 : i < 8 := hi
  apply byte_incrementArray_of_not_contains
  rw [Pointer.span_of_not_null h, Region.not_contains_singleton]
  omega

end Memory

structure Increment where
  offset : Nat
  count : Int32

namespace Increment

def Covers (r : Increment) (i : Nat) : Prop := r.offset ≤ i ∧ i < r.offset + elementCount r.count

instance (r : Increment) (i : Nat) : Decidable (r.Covers i) :=
  inferInstanceAs (Decidable (_ ∧ _))

def start (arr : Pointer) (r : Increment) : Pointer := .ofAddr (arr.addr + r.offset * 8)

def call (arr : Pointer) (r : Increment) : Call := .incrementArray (r.start arr) r.count

def run (arr : Pointer) (m : Memory) (rs : List Increment) : Memory :=
  rs.foldl (fun m r => ((r.call arr).run m).2) m

section Range

variable {arr : Pointer} {n : Nat} {r : Increment} {m : Memory}

theorem start_cases (hp : arr.isNull = false) (hfits : arr.addr + n * 8 ≤ addressSpace)
    (hr : r.offset + elementCount r.count ≤ n) : elementCount r.count = 0 ∨
      (r.start arr).addr = arr.addr + r.offset * 8 ∧ (r.start arr).isNull = false := by
  rcases Nat.eq_zero_or_pos (elementCount r.count) with hnone | hsome
  · exact Or.inl hnone
  · have hpos : arr.addr ≠ 0 := fun h => by simp [Pointer.isNull_iff.mpr h] at hp
    have hlt : arr.addr + r.offset * 8 < addressSpace := by omega
    exact Or.inr ⟨Pointer.addr_ofAddr hlt, Pointer.isNull_ofAddr (by omega) hlt⟩

theorem start_zero (arr : Pointer) (count : Int32) : start arr ⟨0, count⟩ = arr := by
  rw [start, Nat.zero_mul, Nat.add_zero, Pointer.ofAddr_addr]

theorem load_run_call (hp : arr.isNull = false) (hfits : arr.addr + n * 8 ≤ addressSpace)
    (hr : r.offset + elementCount r.count ≤ n) (i : Nat) :
    ((r.call arr).run m).2.load Binary64 (arr.addr + i * 8) =
      if r.Covers i then m.load Binary64 (arr.addr + i * 8) + Binary64.one
      else m.load Binary64 (arr.addr + i * 8) := by
  change (m.incrementArray (r.start arr) r.count).load Binary64 (arr.addr + i * 8) = _
  rcases start_cases hp hfits hr with hnone | ⟨haddr, hstart⟩
  · have hskip : ¬r.Covers i := by
      simp only [Covers]
      omega
    rw [Memory.incrementArray_of_no_elements (Or.inr hnone), if_neg hskip]
  split
  · rename_i hi
    obtain ⟨k, rfl⟩ := Nat.exists_eq_add_of_le hi.1
    have hk : k < elementCount r.count := Nat.lt_of_add_lt_add_left hi.2
    have hload := Memory.load_incrementArray (m := m) hstart hk
    rwa [haddr, Nat.add_assoc, ← Nat.add_mul] at hload
  · rename_i hi
    simp only [Covers] at hi
    apply Memory.load_incrementArray_of_apart hstart
    rw [haddr]
    omega

theorem byte_run_call (hp : arr.isNull = false) (hfits : arr.addr + n * 8 ≤ addressSpace)
    (hr : r.offset + elementCount r.count ≤ n) {j : Nat}
    (hj : ¬Span.Contains ⟨arr.addr, n * 8⟩ j) : ((r.call arr).run m).2.byte j = m.byte j := by
  change (m.incrementArray (r.start arr) r.count).byte j = m.byte j
  rcases start_cases hp hfits hr with hnone | ⟨haddr, hstart⟩
  · rw [Memory.incrementArray_of_no_elements (Or.inr hnone)]
  · apply Memory.byte_incrementArray_of_not_contains
    rw [Pointer.span_of_not_null hstart, haddr, Region.not_contains_singleton]
    simp only [Span.Contains] at hj
    omega

end Range

section Run

variable {arr : Pointer} {n : Nat} {rs : List Increment}

theorem load_run (hp : arr.isNull = false) (hfits : arr.addr + n * 8 ≤ addressSpace)
    (hrs : ∀ r ∈ rs, r.offset + elementCount r.count ≤ n) (m : Memory) (i : Nat) :
    (run arr m rs).load Binary64 (arr.addr + i * 8) =
      (· + Binary64.one)^[rs.countP (·.Covers i)] (m.load Binary64 (arr.addr + i * 8)) := by
  induction rs generalizing m with
  | nil => rfl
  | cons r rs ih =>
    obtain ⟨hr, hrs'⟩ := List.forall_mem_cons.mp hrs
    have hrest := ih hrs' ((r.call arr).run m).2
    rw [load_run_call hp hfits hr] at hrest
    rw [List.countP_cons]
    split at hrest
    · rename_i hi
      rw [if_pos (decide_eq_true hi), Function.iterate_succ_apply]
      exact hrest
    · rename_i hi
      rw [if_neg (by simpa using hi)]
      exact hrest

theorem byte_run (hp : arr.isNull = false) (hfits : arr.addr + n * 8 ≤ addressSpace)
    (hrs : ∀ r ∈ rs, r.offset + elementCount r.count ≤ n) (m : Memory) {j : Nat}
    (hj : ¬Span.Contains ⟨arr.addr, n * 8⟩ j) : (run arr m rs).byte j = m.byte j := by
  induction rs generalizing m with
  | nil => rfl
  | cons r rs ih =>
    obtain ⟨hr, hrs'⟩ := List.forall_mem_cons.mp hrs
    exact (ih hrs' _).trans (byte_run_call hp hfits hr hj)

theorem run_eq_of_countP {ss : List Increment} (hp : arr.isNull = false)
    (hfits : arr.addr + n * 8 ≤ addressSpace)
    (hrs : ∀ r ∈ rs, r.offset + elementCount r.count ≤ n)
    (hss : ∀ r ∈ ss, r.offset + elementCount r.count ≤ n)
    (hcount : ∀ i < n, rs.countP (·.Covers i) = ss.countP (·.Covers i)) (m : Memory) :
    run arr m rs = run arr m ss := by
  apply Memory.eq_of_loads_eq (α := Binary64)
  · intro i hi
    exact (load_run hp hfits hrs m i).trans (hcount i hi ▸ (load_run hp hfits hss m i).symm)
  · intro j hj
    exact (byte_run hp hfits hrs m hj).trans (byte_run hp hfits hss m hj).symm

theorem run_split {j k : Nat} (hp : arr.isNull = false)
    (hfits : arr.addr + (j + k) * 8 ≤ addressSpace) (hjk : j + k < 2 ^ 31) (m : Memory) :
    run arr m [⟨0, .ofNat j⟩, ⟨j, .ofNat k⟩] = run arr m [⟨0, .ofNat (j + k)⟩] ∧
      run arr m [⟨j, .ofNat k⟩, ⟨0, .ofNat j⟩] = run arr m [⟨0, .ofNat (j + k)⟩] := by
  have hcount : ∀ n < 2 ^ 31, elementCount (Int32.ofNat n) = n := fun n hn =>
    elementCount_eq (Int32.toInt_ofNat_of_lt hn)
  have hparts : ∀ r ∈ [(⟨0, .ofNat j⟩ : Increment), ⟨j, .ofNat k⟩],
      r.offset + elementCount r.count ≤ j + k := by
    simp only [List.forall_mem_cons, hcount j (by omega), hcount k (by omega)]
    exact ⟨by omega, by omega, nofun⟩
  have hwhole : ∀ r ∈ [(⟨0, .ofNat (j + k)⟩ : Increment)],
      r.offset + elementCount r.count ≤ j + k := by
    simp only [List.forall_mem_cons, hcount (j + k) hjk]
    exact ⟨by omega, nofun⟩
  have honce : ∀ i < j + k, [(⟨0, .ofNat j⟩ : Increment), ⟨j, .ofNat k⟩].countP (·.Covers i) =
      [(⟨0, .ofNat (j + k)⟩ : Increment)].countP (·.Covers i) := by
    intro i hi
    simp only [List.countP_cons, List.countP_nil, Covers, hcount j (by omega), hcount k (by omega),
      hcount (j + k) hjk, decide_eq_true_eq]
    split <;> split <;> split <;> omega
  have hswap := List.Perm.swap (⟨0, .ofNat j⟩ : Increment) ⟨j, .ofNat k⟩ []
  constructor
  · exact run_eq_of_countP hp hfits hparts hwhole honce m
  · apply run_eq_of_countP hp hfits (fun r hr => hparts r (hswap.mem_iff.mp hr)) hwhole _ m
    intro i hi
    rw [hswap.countP_eq, honce i hi]

end Run

end Increment

theorem Call.increments_split_and_compound :
    (∀ (m : Memory) (arr : Pointer) (len : Int32),
      let after := ((Call.incrementArray arr len).run m).2
      (arr.isNull = true ∨ len.toInt ≤ 0 → after = m) ∧
        (arr.isNull = false →
          (∀ i < elementCount len, after.load Binary64 (arr.addr + i * 8) =
            m.load Binary64 (arr.addr + i * 8) + Binary64.one) ∧
          ∀ b, ¬Span.Contains ⟨arr.addr, elementCount len * 8⟩ b → after.byte b = m.byte b)) ∧
    (∀ (m : Memory) (arr : Pointer) (j k : Nat), j + k < 2 ^ 31 →
      arr.addr + (j + k) * 8 ≤ addressSpace → (arr.isNull = true → j = 0 ∨ k = 0) →
      let head := Call.incrementArray arr (.ofNat j)
      let tail := Call.incrementArray (.ofAddr (arr.addr + j * 8)) (.ofNat k)
      let whole := Call.incrementArray arr (.ofNat (j + k))
      (tail.run (head.run m).2).2 = (whole.run m).2 ∧
        (head.run (tail.run m).2).2 = (whole.run m).2) ∧
    ∀ (m : Memory) (arr : Pointer) (n : Nat) (rs : List Increment), arr.isNull = false →
      arr.addr + n * 8 ≤ addressSpace → (∀ r ∈ rs, r.offset + elementCount r.count ≤ n) →
      (∀ i < n, (Increment.run arr m rs).load Binary64 (arr.addr + i * 8) =
        (· + Binary64.one)^[rs.countP (·.Covers i)] (m.load Binary64 (arr.addr + i * 8))) ∧
      ∀ b, ¬Span.Contains ⟨arr.addr, n * 8⟩ b →
        (Increment.run arr m rs).byte b = m.byte b := by
  refine ⟨fun m arr len => ⟨fun hnone => ?_, fun hp => ⟨fun i hi => ?_, fun b hb => ?_⟩⟩, ?_, ?_⟩
  · apply Memory.incrementArray_of_no_elements
    rwa [elementCount_eq_zero_iff]
  · exact Memory.load_incrementArray hp hi
  · apply Memory.byte_incrementArray_of_not_contains
    simpa [Pointer.span_of_not_null hp] using hb
  · intro m arr j k hjk hfits hnull head tail whole
    cases hp : arr.isNull with
    | true =>
      have hnone : ∀ (m' : Memory) count, ((Call.incrementArray arr count).run m').2 = m' :=
        fun m' count => Memory.incrementArray_of_no_elements (Or.inl hp)
      have htail : ∀ m' : Memory, (tail.run m').2 = m' := by
        intro m'
        apply Memory.incrementArray_of_no_elements
        rcases hnull hp with rfl | rfl
        · left
          rwa [Nat.zero_mul, Nat.add_zero, Pointer.ofAddr_addr]
        · exact Or.inr rfl
      simp only [head, whole, hnone, htail, and_self]
    | false =>
      have hsplit := Increment.run_split hp hfits hjk m
      simp only [Increment.run, List.foldl_cons, List.foldl_nil, Increment.call,
        Increment.start_zero] at hsplit
      exact hsplit
  · intro m arr n rs hp hfits hrs
    exact ⟨fun i _ => Increment.load_run hp hfits hrs m i,
      fun b hb => Increment.byte_run hp hfits hrs m hb⟩

def Increment.overlapping : List Increment := [⟨0, 3⟩, ⟨1, 3⟩, ⟨4, -5⟩, ⟨1, 1⟩]

theorem Call.increments_split_and_compound_overlapping :
    let arr := Pointer.ofAddr 64
    let m := Memory.empty.storeArray 64 [Binary64.zero, .zero, .one, .negZero]
    let after := Increment.run arr m Increment.overlapping
    ((Call.incrementArray arr 0).run m).2 = m ∧
      ((Call.incrementArray arr 2).run m).2.load Binary64 72 = Binary64.ofInt 1 ∧
      ((Call.incrementArray (.ofAddr 80) 2).run ((Call.incrementArray arr 2).run m).2).2 =
        ((Call.incrementArray arr 4).run m).2 ∧
      after.load Binary64 64 = Binary64.ofInt 1 ∧ after.load Binary64 72 = Binary64.ofInt 3 ∧
      after.load Binary64 80 = Binary64.ofInt 3 ∧ after.load Binary64 88 = Binary64.ofInt 1 ∧
      after.byte 96 = m.byte 96 := by
  intro arr m after
  obtain ⟨hcall, hsplit, hrun⟩ := Call.increments_split_and_compound
  have hnone := (hcall m arr 0).1 (Or.inr (by decide))
  have hone := ((hcall m arr 2).2 rfl).1 1 (by decide)
  have htwo := (hsplit m arr 2 2 (by decide) (by decide) nofun).1
  obtain ⟨hload, hbyte⟩ := hrun m arr 4 Increment.overlapping rfl (by decide) (by decide)
  refine ⟨hnone, hone.trans (by decide), htwo, (hload 0 (by decide)).trans (by decide),
    (hload 1 (by decide)).trans (by decide), (hload 2 (by decide)).trans (by decide),
    (hload 3 (by decide)).trans (by decide), hbyte 96 (by decide)⟩

end AbiConformance
