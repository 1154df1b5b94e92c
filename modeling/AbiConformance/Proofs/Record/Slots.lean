import AbiConformance.Memory.Typed
import AbiConformance.Proofs.Record.Layout

namespace AbiConformance

structure Slot where
  offset : Nat
  size : Nat
  bytes : List UInt8

namespace Slot

def shift (o : Nat) (s : Slot) : Slot := { s with offset := o + s.offset }

def Apart (s t : Slot) : Prop := s.offset + s.size ≤ t.offset ∨ t.offset + t.size ≤ s.offset

def assemble {ι : Type} (l : List ι) (offset : ι → Nat) (slots : ι → List Slot) : List Slot :=
  l.flatMap fun i => (slots i).map (shift (offset i))

end Slot

open Slot

abbrev Part := Nat → List Slot

namespace Part

def word {α : Type} [Scalar α] (x : α) : Part := fun size => [⟨0, size, Scalar.encode x⟩]

def record (slots : List Slot) : Part := fun _ => slots

def array {n : Nat} (parts : Fin n → Part) : Part := fun size =>
  let stride := size / n
  assemble (List.finRange n) (fun i => i * stride) fun i => parts i stride

end Part

def RecordKind.arrange (k : RecordKind) (parts : List Part) : List Slot :=
  assemble (k.fields.zip parts) (·.1.offset) fun x => x.2 x.1.size

namespace Memory

def place (m : Memory) (base : Nat) (slots : List Slot) : Memory :=
  slots.foldl (fun m s => m.write (base + s.offset) s.bytes) m

def Shows (m : Memory) (base : Nat) (slots : List Slot) : Prop :=
  ∀ s ∈ slots, m.read (base + s.offset) s.size = s.bytes

end Memory

structure Packed (size : Nat) (slots : List Slot) : Prop where
  length_bytes : ∀ s ∈ slots, s.bytes.length = s.size
  inside : ∀ s ∈ slots, s.offset + s.size ≤ size
  apart : slots.Pairwise Apart

namespace Packed

theorem word {α : Type} [Scalar α] (x : α) {size : Nat} (h : size = Scalar.width α) :
    Packed size (Part.word x size) where
  length_bytes := by simp [Part.word, h]
  inside := by simp [Part.word]
  apart := List.pairwise_singleton _ _

theorem assemble {ι : Type} {l : List ι} {offset sizes : ι → Nat} {slots : ι → List Slot}
    {size : Nat} (hslots : ∀ i ∈ l, Packed (sizes i) (slots i))
    (hinside : ∀ i ∈ l, offset i + sizes i ≤ size)
    (hsorted : l.Pairwise fun i j => offset i + sizes i ≤ offset j) :
    Packed size (Slot.assemble l offset slots) where
  length_bytes := by
    simp only [Slot.assemble, List.mem_flatMap, List.mem_map]
    rintro _ ⟨i, hi, s, hs, rfl⟩
    exact (hslots i hi).length_bytes s hs
  inside := by
    simp only [Slot.assemble, List.mem_flatMap, List.mem_map]
    rintro _ ⟨i, hi, s, hs, rfl⟩
    have hin := (hslots i hi).inside s hs
    have hend := hinside i hi
    simp only [shift]
    omega
  apart := by
    rw [Slot.assemble, List.pairwise_flatMap]
    refine ⟨?_, ?_⟩
    · intro i hi
      rw [List.pairwise_map]
      refine (hslots i hi).apart.imp ?_
      intro s t hst
      simp only [Apart, shift] at hst ⊢
      omega
    · refine hsorted.imp_of_mem ?_
      intro i j hi _ hij s hs t ht
      obtain ⟨s', hs', rfl⟩ := List.mem_map.mp hs
      obtain ⟨t', _, rfl⟩ := List.mem_map.mp ht
      have hin := (hslots i hi).inside s' hs'
      simp only [Apart, shift]
      omega

theorem array {n size : Nat} {parts : Fin n → Part}
    (h : ∀ i, Packed (size / n) (parts i (size / n))) : Packed size (Part.array parts size) := by
  refine assemble (fun i _ => h i) ?_ ?_
  · intro i _
    have hlast : (i + 1) * (size / n) ≤ n * (size / n) := Nat.mul_le_mul_right _ i.isLt
    have hall := Nat.mul_div_le size n
    rw [Nat.succ_mul] at hlast
    omega
  · refine (List.pairwise_lt_finRange n).imp ?_
    intro i j hij
    have hnext : (i + 1) * (size / n) ≤ j * (size / n) := Nat.mul_le_mul_right _ hij
    rwa [Nat.succ_mul] at hnext

theorem arrange {k : RecordKind} {parts : List Part} (hlen : k.fields.length ≤ parts.length)
    (h : ∀ x ∈ k.fields.zip parts, Packed x.1.size (x.2 x.1.size)) :
    Packed k.size (k.arrange parts) := by
  refine assemble h ?_ ?_
  · intro x hx
    exact k.fields_inside (List.of_mem_zip hx).1
  · have hsorted := k.fields_sorted
    rwa [← List.map_fst_zip hlen, List.pairwise_map] at hsorted

end Packed

namespace Memory

theorem shows_cons {m : Memory} {base : Nat} {s : Slot} {slots : List Slot} :
    m.Shows base (s :: slots) ↔
      m.read (base + s.offset) s.size = s.bytes ∧ m.Shows base slots :=
  List.forall_mem_cons

theorem shows_assemble {ι : Type} {m : Memory} {base : Nat} {l : List ι} {offset : ι → Nat}
    {slots : ι → List Slot} :
    m.Shows base (assemble l offset slots) ↔ ∀ i ∈ l, m.Shows (base + offset i) (slots i) := by
  simp only [Shows, assemble, List.forall_mem_flatMap, List.forall_mem_map, shift, Nat.add_assoc]

theorem shows_word {α : Type} [Scalar α] {m : Memory} {base size : Nat} {x : α}
    (h : size = Scalar.width α) : m.Shows base (Part.word x size) ↔ m.load α base = x := by
  subst h
  simp only [Shows, Part.word, List.forall_mem_singleton, Nat.add_zero]
  constructor
  · intro hread
    rw [load, hread, Scalar.decode_encode]
  · rintro rfl
    exact (Scalar.encode_decode (by simp)).symm

theorem shows_array {n : Nat} {m : Memory} {base size : Nat} {parts : Fin n → Part} :
    m.Shows base (Part.array parts size) ↔
      ∀ i : Fin n, m.Shows (base + i * (size / n)) (parts i (size / n)) := by
  simp only [Part.array, shows_assemble, List.mem_finRange, true_implies]

theorem shows_arrange {k : RecordKind} {m : Memory} {base : Nat} {parts : List Part} :
    m.Shows base (k.arrange parts) ↔
      ∀ x ∈ k.fields.zip parts, m.Shows (base + x.1.offset) (x.2 x.1.size) :=
  shows_assemble

section Place

variable {m : Memory} {base size : Nat} {slots : List Slot}

theorem place_assemble {ι : Type} {l : List ι} {offset : ι → Nat} {slots : ι → List Slot} :
    m.place base (assemble l offset slots) =
      l.foldl (fun m i => m.place (base + offset i) (slots i)) m := by
  simp only [place, assemble, List.foldl_flatMap, List.foldl_map, shift, Nat.add_assoc]

theorem read_place_of_apart {s : Slot} (hbytes : ∀ t ∈ slots, t.bytes.length = t.size)
    (h : ∀ t ∈ slots, Apart s t) :
    (m.place base slots).read (base + s.offset) s.size = m.read (base + s.offset) s.size := by
  induction slots generalizing m with
  | nil => rfl
  | cons t rest ih =>
    obtain ⟨ht, hrest⟩ := List.forall_mem_cons.mp h
    obtain ⟨hlen, hbytes⟩ := List.forall_mem_cons.mp hbytes
    have hskip : (m.write (base + t.offset) t.bytes).read (base + s.offset) s.size =
        m.read (base + s.offset) s.size := by
      apply read_write_of_disjoint
      simp only [Apart] at ht
      omega
    exact (ih hbytes hrest).trans hskip

theorem shows_place (h : Packed size slots) : (m.place base slots).Shows base slots := by
  obtain ⟨hbytes, -, hapart⟩ := h
  induction slots generalizing m with
  | nil => simp [Shows]
  | cons s rest ih =>
    obtain ⟨hs, hrest⟩ := List.pairwise_cons.mp hapart
    obtain ⟨hlen, hbytes⟩ := List.forall_mem_cons.mp hbytes
    refine shows_cons.mpr ⟨?_, ih hbytes hrest⟩
    calc (m.place base (s :: rest)).read (base + s.offset) s.size
        = (m.write (base + s.offset) s.bytes).read (base + s.offset) s.size :=
          read_place_of_apart hbytes hs
      _ = s.bytes := by rw [← hlen, read_write]

theorem byte_place_of_not_mem {i : Nat} (h : Packed size slots)
    (hi : i < base ∨ base + size ≤ i) : (m.place base slots).byte i = m.byte i := by
  obtain ⟨hbytes, hinside, -⟩ := h
  induction slots generalizing m with
  | nil => rfl
  | cons s rest ih =>
    obtain ⟨hlen, hbytes⟩ := List.forall_mem_cons.mp hbytes
    obtain ⟨hend, hinside⟩ := List.forall_mem_cons.mp hinside
    exact (ih hbytes hinside).trans (byte_write_of_not_mem (by omega))

end Place

end Memory

end AbiConformance
