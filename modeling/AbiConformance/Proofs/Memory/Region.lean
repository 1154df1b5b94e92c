import AbiConformance.Memory.CString
import AbiConformance.Proofs.Memory.Array

namespace AbiConformance

structure Span where
  addr : Nat
  size : Nat
  deriving DecidableEq

abbrev Region := List Span

def Span.Contains (s : Span) (i : Nat) : Prop := s.addr ≤ i ∧ i < s.addr + s.size

instance (s : Span) (i : Nat) : Decidable (s.Contains i) :=
  inferInstanceAs (Decidable (s.addr ≤ i ∧ i < s.addr + s.size))

namespace Region

def Contains (r : Region) (i : Nat) : Prop := ∃ s ∈ r, s.Contains i

instance (r : Region) (i : Nat) : Decidable (r.Contains i) :=
  inferInstanceAs (Decidable (∃ s ∈ r, s.Contains i))

def Disjoint (r t : Region) : Prop := ∀ i, r.Contains i → ¬t.Contains i

@[simp] theorem not_contains_nil (i : Nat) : ¬Contains [] i := by
  simp [Contains]

@[simp] theorem contains_cons {s : Span} {r : Region} {i : Nat} :
    Contains (s :: r) i ↔ s.Contains i ∨ Contains r i := by
  simp [Contains]

@[simp] theorem contains_append {r t : Region} {i : Nat} :
    Contains (r ++ t) i ↔ Contains r i ∨ Contains t i := by
  simp only [Contains, List.mem_append, or_and_right, exists_or]

theorem contains_singleton {a n i : Nat} : Contains [⟨a, n⟩] i ↔ a ≤ i ∧ i < a + n := by
  simp only [contains_cons, not_contains_nil, or_false, Span.Contains]

theorem not_contains_singleton {a n i : Nat} :
    ¬Contains [⟨a, n⟩] i ↔ i < a ∨ a + n ≤ i := by
  rw [contains_singleton]
  omega

theorem Disjoint.mono_right {r t u : Region} (h : r.Disjoint t)
    (hu : ∀ {i}, u.Contains i → t.Contains i) : r.Disjoint u :=
  fun i hr hi => h i hr (hu hi)

theorem Disjoint.mono_left {r t u : Region} (h : r.Disjoint t)
    (hu : ∀ {i}, u.Contains i → r.Contains i) : u.Disjoint t :=
  fun i hi => h i (hu hi)

theorem Disjoint.within {r : Region} {a n b k : Nat} (h : r.Disjoint [⟨b, k⟩])
    (hle : b ≤ a ∧ a + n ≤ b + k) : r.Disjoint [⟨a, n⟩] := by
  apply h.mono_right
  intro i hi
  rw [contains_singleton] at hi ⊢
  omega

theorem disjoint_of_apart {r t : Region}
    (h : ∀ s ∈ r, ∀ u ∈ t, s.addr + s.size ≤ u.addr ∨ u.addr + u.size ≤ s.addr) :
    r.Disjoint t := by
  rintro i ⟨s, hs, hsi⟩ ⟨u, hu, hui⟩
  have hapart := h s hs u hu
  simp only [Span.Contains] at hsi hui
  omega

theorem apart_of_disjoint {a n b k : Nat} (hn : 0 < n) (hk : 0 < k)
    (h : Disjoint [⟨a, n⟩] [⟨b, k⟩]) : a + n ≤ b ∨ b + k ≤ a := by
  have hmeet := h (max a b)
  rw [contains_singleton, contains_singleton] at hmeet
  omega

end Region

def Pointer.region (p : Pointer) (spans : Nat → Region) : Region :=
  if p.isNull then [] else spans p.addr

def Pointer.span (p : Pointer) (n : Nat) : Region := p.region fun a => [⟨a, n⟩]

namespace Pointer

variable {p : Pointer} {n : Nat}

@[simp] theorem region_of_null {spans : Nat → Region} (h : p.isNull = true) :
    p.region spans = [] := by
  simp [region, h]

@[simp] theorem region_of_not_null {spans : Nat → Region} (h : p.isNull = false) :
    p.region spans = spans p.addr := by
  simp [region, h]

@[simp] theorem span_of_null (h : p.isNull = true) : p.span n = [] := region_of_null h

@[simp] theorem span_of_not_null (h : p.isNull = false) : p.span n = [⟨p.addr, n⟩] :=
  region_of_not_null h

theorem contains_span_of_le {k i : Nat} (hle : n ≤ k) (hi : (p.span n).Contains i) :
    (p.span k).Contains i := by
  cases hp : p.isNull with
  | true => simp [hp] at hi
  | false =>
    rw [span_of_not_null hp, Region.contains_singleton] at hi ⊢
    omega

end Pointer

namespace Memory

def Agree (r : Region) (m m' : Memory) : Prop := ∀ i, r.Contains i → m.byte i = m'.byte i

theorem Agree.refl (r : Region) (m : Memory) : Agree r m m := fun _ _ => rfl

theorem Agree.symm {r : Region} {m m' : Memory} (h : Agree r m m') : Agree r m' m :=
  fun i hi => (h i hi).symm

theorem Agree.mono {r t : Region} {m m' : Memory} (h : Agree t m m') (hr : r ⊆ t) :
    Agree r m m' := by
  rintro i ⟨s, hs, hi⟩
  exact h i ⟨s, hr hs, hi⟩

theorem Agree.of_frame {r w : Region} {m m' : Memory} (hd : w.Disjoint r)
    (hf : ∀ i, ¬w.Contains i → m'.byte i = m.byte i) : Agree r m m' := by
  intro i hi
  exact (hf i fun hw => hd i hw hi).symm

theorem Agree.read {r : Region} {m m' : Memory} {a n : Nat} (h : Agree r m m') (hs : ⟨a, n⟩ ∈ r) :
    m.read a n = m'.read a n := by
  apply read_congr
  intro i hi
  exact h (a + i) ⟨_, hs, by simp only [Span.Contains]; omega⟩

theorem Agree.load {α : Type} [Scalar α] {r : Region} {m m' : Memory} {a n : Nat}
    (h : Agree r m m') (hs : ⟨a, n⟩ ∈ r) (hn : n = Scalar.width α) :
    m.load α a = m'.load α a := by
  subst hn
  exact load_of_read_eq (h.read hs)

theorem Agree.slice {α : Type} [Scalar α] {r : Region} {m m' : Memory} {p : Pointer} {n : Nat}
    (h : Agree r m m') (hs : p.span (n * Scalar.width α) ⊆ r) :
    m.slice α p n = m'.slice α p n := by
  cases hp : p.isNull with
  | true => simp [Memory.slice, hp]
  | false =>
    rw [slice_of_not_null hp, slice_of_not_null hp]
    exact loadArray_congr (h.read (hs (by simp [hp])))

theorem Agree.write {r : Region} {m m' : Memory} (h : Agree r m m') (a : Nat) (bs : List UInt8) :
    Agree r (m.write a bs) (m'.write a bs) := by
  intro i hi
  rw [byte_write, byte_write, h i hi]

theorem scan_congr {m m' : Memory} {a fuel : Nat}
    (h : ∀ i ≤ (m.scan a fuel).length, m.byte (a + i) = m'.byte (a + i)) :
    m.scan a fuel = m'.scan a fuel := by
  induction fuel generalizing a with
  | zero => rfl
  | succ fuel ih =>
    have hfirst : m.byte a = m'.byte a := h 0 (Nat.zero_le _)
    simp only [scan] at h ⊢
    rw [← hfirst]
    split
    · rfl
    · rename_i hne
      simp only [hne, if_false, List.length_cons] at h
      congr 1
      apply ih
      intro i hi
      have hnext := h (i + 1) (by omega)
      rwa [Nat.add_comm i 1, ← Nat.add_assoc] at hnext

def stringSpan (m : Memory) (p : Pointer) : Region := p.span ((m.stringFrom p.addr).length + 1)

theorem mem_stringSpan {m : Memory} {p : Pointer} (hp : p.isNull = false) :
    ⟨p.addr, (m.stringFrom p.addr).length + 1⟩ ∈ m.stringSpan p := by
  simp [stringSpan, hp]

theorem Agree.stringFrom {r : Region} {m m' : Memory} {a : Nat} (h : Agree r m m')
    (hs : ⟨a, (m.stringFrom a).length + 1⟩ ∈ r) : m.stringFrom a = m'.stringFrom a := by
  apply scan_congr
  intro i hi
  exact h (a + i) ⟨_, hs, by simp only [Span.Contains, Memory.stringFrom]; omega⟩

theorem Agree.stringAt {r : Region} {m m' : Memory} {p : Pointer} (h : Agree r m m')
    (hs : m.stringSpan p ⊆ r) : m.stringAt p = m'.stringAt p := by
  cases hp : p.isNull with
  | true => simp [Memory.stringAt, hp]
  | false =>
    have hfrom := h.stringFrom (hs (mem_stringSpan hp))
    simp [Memory.stringAt, hp, hfrom]

theorem Agree.stringSpan {r : Region} {m m' : Memory} {p : Pointer} (h : Agree r m m')
    (hs : m.stringSpan p ⊆ r) : m.stringSpan p = m'.stringSpan p := by
  cases hp : p.isNull with
  | true => simp [Memory.stringSpan, hp]
  | false =>
    have hfrom := h.stringFrom (hs (mem_stringSpan hp))
    simp [Memory.stringSpan, hp, hfrom]

theorem eq_of_loads_eq {α : Type} [Scalar α] {m m' : Memory} {a n : Nat}
    (hload : ∀ i < n, m.load α (a + i * Scalar.width α) = m'.load α (a + i * Scalar.width α))
    (hframe : ∀ j, ¬Span.Contains ⟨a, n * Scalar.width α⟩ j → m.byte j = m'.byte j) : m = m' := by
  apply Memory.ext
  funext j
  by_cases hj : Span.Contains ⟨a, n * Scalar.width α⟩ j
  · obtain ⟨o, rfl⟩ := Nat.exists_eq_add_of_le hj.1
    have ho : o < n * Scalar.width α := Nat.lt_of_add_lt_add_left hj.2
    have hwidth : 0 < Scalar.width α := Nat.pos_of_lt_mul_left ho
    have hread := read_eq_of_load_eq (hload _ ((Nat.div_lt_iff_lt_mul hwidth).mpr ho))
    have hbyte := byte_of_read_eq hread (Nat.mod_lt o hwidth)
    rwa [Nat.add_assoc, Nat.mul_comm, Nat.div_add_mod] at hbyte
  · exact hframe j hj

theorem byte_write_of_not_contains {m : Memory} {r : Region} {a i : Nat} {bs : List UInt8}
    (h : ¬r.Contains i) (hs : ⟨a, bs.length⟩ ∈ r) : (m.write a bs).byte i = m.byte i := by
  apply byte_write_of_not_mem
  by_cases hi : a ≤ i ∧ i < a + bs.length
  · exact absurd ⟨_, hs, hi⟩ h
  · omega

end Memory

end AbiConformance
