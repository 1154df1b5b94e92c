import AbiConformance.Call.Basic
import AbiConformance.Proofs.Memory.Addition
import AbiConformance.Proofs.Record.Slots

namespace AbiConformance

open Memory

namespace NumericRecord

def slots (r : NumericRecord) : List Slot :=
  RecordKind.numeric.arrange [.word r.int, .word r.long, .word r.float, .word r.double]

theorem fields_eq : RecordKind.numeric.fields =
    [⟨"s_int", 0, 4, .copied⟩, ⟨"s_long", 8, 8, .copied⟩, ⟨"s_float", 16, 4, .copied⟩,
      ⟨"s_double", 24, 8, .copied⟩] :=
  rfl

theorem packed_slots (r : NumericRecord) : Packed RecordKind.numeric.size r.slots := by
  apply Packed.arrange (Nat.le_refl _)
  simp [fields_eq, Packed.word]

theorem shows_slots {m : Memory} {base : Nat} {r : NumericRecord} :
    m.Shows base r.slots ↔ load m base = r := by
  obtain ⟨int, long, float, double⟩ := r
  simp [slots, shows_arrange, fields_eq, shows_word, load]

end NumericRecord

namespace CounterRecord

def slots (r : CounterRecord) : List Slot :=
  RecordKind.counter.arrange [.word r.a, .word r.b, .word r.c, .word r.d]

theorem fields_eq : RecordKind.counter.fields =
    [⟨"a", 0, 4, .copied⟩, ⟨"b", 8, 8, .copied⟩, ⟨"c", 16, 8, .copied⟩,
      ⟨"d", 24, 8, .transferred⟩] :=
  rfl

theorem packed_slots (r : CounterRecord) : Packed RecordKind.counter.size r.slots := by
  apply Packed.arrange (Nat.le_refl _)
  simp [fields_eq, Packed.word]

theorem shows_slots {m : Memory} {base : Nat} {r : CounterRecord} :
    m.Shows base r.slots ↔ load m base = r := by
  obtain ⟨a, b, c, d⟩ := r
  simp [slots, shows_arrange, fields_eq, shows_word, load]

theorem store_eq_place (m : Memory) (base : Nat) (r : CounterRecord) :
    store m base r = m.place base r.slots :=
  rfl

end CounterRecord

namespace LinkedRecord

def slots (r : LinkedRecord) : List Slot :=
  RecordKind.linked.arrange [.word r.id, .record r.data.slots, .word r.link, .word r.text]

theorem fields_eq : RecordKind.linked.fields =
    [⟨"s_ID", 0, 4, .copied⟩, ⟨"s_passingData", 8, 32, .copied⟩,
      ⟨"s_ptrPassingData", 40, 8, .borrowed⟩, ⟨"s_string", 48, 8, .borrowed⟩] :=
  rfl

theorem packed_slots (r : LinkedRecord) : Packed RecordKind.linked.size r.slots := by
  apply Packed.arrange (Nat.le_refl _)
  have hdata : Packed 32 (Part.record r.data.slots 32) := r.data.packed_slots
  simp [fields_eq, Packed.word, hdata]

theorem shows_slots {m : Memory} {base : Nat} {r : LinkedRecord} :
    m.Shows base r.slots ↔ load m base = r := by
  obtain ⟨id, data, link, text⟩ := r
  simp [slots, shows_arrange, fields_eq, shows_word, Part.record, NumericRecord.shows_slots, load]

end LinkedRecord

namespace CompositeRecord

def slots (r : CompositeRecord) : List Slot :=
  RecordKind.composite.arrange
    [.word r.first, .array fun i : Fin 3 => .record r.parts[i].slots, .word r.message]

theorem fields_eq : RecordKind.composite.fields =
    [⟨"a", 0, 8, .borrowed⟩, ⟨"b", 8, 96, .copied⟩, ⟨"message", 104, 8, .borrowed⟩] :=
  rfl

theorem packed_slots (r : CompositeRecord) : Packed RecordKind.composite.size r.slots := by
  apply Packed.arrange (Nat.le_refl _)
  have hparts : Packed 96 (Part.array (fun i : Fin 3 => .record r.parts[i].slots) 96) :=
    Packed.array fun i => r.parts[i].packed_slots
  simpa [fields_eq, Packed.word] using hparts

theorem parts_load_eq_iff {m : Memory} {base : Nat} {parts : Vector CounterRecord 3} :
    (load m base).parts = parts ↔
      ∀ i : Fin 3, CounterRecord.load m (base + 8 + i * 32) = parts[i] := by
  constructor
  · rintro rfl i
    match i with
    | 0 => rfl
    | 1 => rfl
    | 2 => rfl
  · intro h
    ext1 i hi
    match i, hi with
    | 0, _ => exact h 0
    | 1, _ => exact h 1
    | 2, _ => exact h 2

theorem shows_slots {m : Memory} {base : Nat} {r : CompositeRecord} :
    m.Shows base r.slots ↔ load m base = r := by
  have hload : load m base = r ↔ m.load Pointer base = r.first ∧
      (load m base).parts = r.parts ∧ m.load Pointer (base + 104) = r.message := by
    cases r
    simp [load]
  rw [hload, parts_load_eq_iff]
  simp [slots, shows_arrange, fields_eq, shows_word, shows_array, Part.record,
    CounterRecord.shows_slots]

theorem store_eq_place (m : Memory) (base : Nat) (r : CompositeRecord) :
    store m base r = m.place base r.slots := by
  simp only [slots, RecordKind.arrange, fields_eq, place_assemble, List.zip_cons_cons,
    List.zip_nil_left, List.foldl_cons, List.foldl_nil, Part.array, Part.record,
    ← CounterRecord.store_eq_place]
  rfl

end CompositeRecord

namespace StepRecord

def slots (xs : Vector Binary64 stepCount) : List Slot :=
  RecordKind.steps.arrange [.array fun i : Fin stepCount => .word xs[i]]

def load (m : Memory) (base : Nat) : Vector Binary64 stepCount :=
  ⟨(m.loadArray Binary64 base stepCount).toArray, by simp⟩

theorem fields_eq : RecordKind.steps.fields = [⟨"values", 0, 80, .copied⟩] :=
  rfl

theorem packed_slots (xs : Vector Binary64 stepCount) :
    Packed RecordKind.steps.size (slots xs) := by
  apply Packed.arrange (Nat.le_refl _)
  have hvalues : Packed 80 (Part.array (fun i : Fin stepCount => .word xs[i]) 80) :=
    Packed.array fun i => Packed.word xs[i] rfl
  simpa [fields_eq] using hvalues

theorem load_eq_iff {m : Memory} {base : Nat} {xs : Vector Binary64 stepCount} :
    load m base = xs ↔ ∀ i : Fin stepCount, m.load Binary64 (base + i * 8) = xs[i] := by
  have hget : ∀ (i : Nat) (hi : i < stepCount),
      (load m base)[i] = m.load Binary64 (base + i * 8) := by
    intro i hi
    simp [load, loadArray]
  constructor
  · rintro rfl i
    exact (hget i i.isLt).symm
  · intro h
    ext1 i hi
    exact (hget i hi).trans (h ⟨i, hi⟩)

theorem shows_slots {m : Memory} {base : Nat} {xs : Vector Binary64 stepCount} :
    m.Shows base (slots xs) ↔ load m base = xs := by
  have hstride : 80 / stepCount = 8 := rfl
  rw [load_eq_iff]
  simp [slots, shows_arrange, fields_eq, shows_array, hstride, shows_word]

theorem load_storeArray (m : Memory) (base : Nat) (xs : Vector Binary64 stepCount) :
    load (m.storeArray base xs.toList) base = xs := by
  apply load_eq_iff.mpr
  intro i
  have hi := Memory.load_storeArray m base xs.toList i (by simp)
  simpa using hi

end StepRecord

namespace RecordKind

abbrev Carrier : RecordKind → Type
  | numeric => NumericRecord
  | counter => CounterRecord
  | linked => LinkedRecord
  | composite => CompositeRecord
  | steps => Vector Binary64 stepCount

def slots : (k : RecordKind) → k.Carrier → List Slot
  | numeric => NumericRecord.slots
  | counter => CounterRecord.slots
  | linked => LinkedRecord.slots
  | composite => CompositeRecord.slots
  | steps => StepRecord.slots

def load : (k : RecordKind) → Memory → Nat → k.Carrier
  | numeric => NumericRecord.load
  | counter => CounterRecord.load
  | linked => LinkedRecord.load
  | composite => CompositeRecord.load
  | steps => StepRecord.load

theorem packed_slots (k : RecordKind) (r : k.Carrier) : Packed k.size (k.slots r) := by
  cases k with
  | numeric => exact NumericRecord.packed_slots r
  | counter => exact CounterRecord.packed_slots r
  | linked => exact LinkedRecord.packed_slots r
  | composite => exact CompositeRecord.packed_slots r
  | steps => exact StepRecord.packed_slots r

theorem shows_slots (k : RecordKind) {m : Memory} {base : Nat} {r : k.Carrier} :
    m.Shows base (k.slots r) ↔ k.load m base = r := by
  cases k with
  | numeric => exact NumericRecord.shows_slots
  | counter => exact CounterRecord.shows_slots
  | linked => exact LinkedRecord.shows_slots
  | composite => exact CompositeRecord.shows_slots
  | steps => exact StepRecord.shows_slots

end RecordKind

end AbiConformance
