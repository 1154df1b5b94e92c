import AbiConformance.Proofs.Call.Footprint
import AbiConformance.Proofs.Record.Tables
import AbiConformance.Session.Basic

namespace AbiConformance

open Memory

namespace FieldInfo

theorem load_store (m : Memory) (a : Nat) (info : FieldInfo) : load (store m a info) a = info := by
  simp (disch := (simp <;> omega)) only [load, store, Memory.load_store, load_store_of_disjoint]

end FieldInfo

namespace CounterRecord

def grow (r : CounterRecord) (inc : Int32) : CounterRecord :=
  { r with a := r.a + inc, b := r.b + inc.toInt64, c := r.c + inc.toInt64 }

theorem contains_of_spans {a i : Nat} (h : (spans a).Contains i) :
    Region.Contains [⟨a, RecordKind.counter.size⟩] i := by
  have hsize : RecordKind.counter.size = 32 := rfl
  simp only [spans, counterSpans, List.cons_append, List.nil_append, Region.contains_cons,
    Region.not_contains_nil, or_false, Span.Contains, hsize] at h ⊢
  omega

theorem load_incrementCounters (m : Memory) (a : Nat) (inc : Int32) :
    load (incrementCounters m a inc) a = (load m a).grow inc := by
  simp (disch := (simp <;> omega)) only [load, grow, incrementCounters, load_modify,
    load_modify_of_disjoint]

theorem load_incrementInPlace {m : Memory} {a : Nat} (inc : Int32)
    (h : ((load m a).d.span 4).Disjoint [⟨a, RecordKind.counter.size⟩]) :
    load (incrementInPlace m a inc) a = (load m a).grow inc := by
  have hd : (incrementCounters m a inc).load Pointer (a + 24) = (load m a).d :=
    load_pointer_incrementCounters m a inc
  have hagree : Agree (spans a) (incrementCounters m a inc) (incrementInPlace m a inc) := by
    refine Agree.of_frame (h.mono_right contains_of_spans) ?_
    intro i hi
    simp only [incrementInPlace]
    rw [hd, incrementTarget_eq_addAll]
    exact byte_addAll_of_not_contains hi fun x => mem_of_mem_spread
  rw [← load_congr hagree (List.Subset.refl _), load_incrementCounters]

end CounterRecord

namespace LinkedRecord

def grow (r : LinkedRecord) : LinkedRecord :=
  { r with id := r.id + 10, data := { r.data with int := r.data.int + 10 } }

def reached (m : Memory) (r : LinkedRecord) : Region := r.link.span 4 ++ textSpan m r.text

theorem contains_of_spans {a i : Nat} (h : (spans a).Contains i) :
    Region.Contains [⟨a, RecordKind.linked.size⟩] i := by
  have hsize : RecordKind.linked.size = 56 := rfl
  simp only [spans, NumericRecord.spans, List.cons_append, List.nil_append, Region.contains_cons,
    Region.not_contains_nil, or_false, Span.Contains, hsize] at h ⊢
  omega

theorem load_raise_raise (m : Memory) (a : Nat) :
    load (raise (raise m a 10) (a + 8) 10) a = (load m a).grow := by
  simp (disch := (simp <;> omega)) only [load, grow, raise, NumericRecord.load, load_modify,
    load_modify_of_disjoint]

def raiseLink (m : Memory) (link : Pointer) : Memory :=
  if link.isNull then m else raise m link.addr 20

theorem mutate_snd (m : Memory) (a : Nat) : (mutate m a).2 =
    raiseLink (raise (raise (shiftText m (load m a).text) a 10) (a + 8) 10) (load m a).link := by
  simp only [mutate, raiseLink]

theorem byte_raiseLink_of_not_contains {m : Memory} {link : Pointer} {i : Nat}
    (h : ¬(link.span 4).Contains i) : (raiseLink m link).byte i = m.byte i := by
  cases hl : link.isNull with
  | true => rw [raiseLink, if_pos hl]
  | false =>
    rw [raiseLink, if_neg (Bool.eq_false_iff.mp hl)]
    exact byte_store_of_not_contains h (by simp [hl]) rfl

theorem load_mutate {m : Memory} {a : Nat}
    (h : (reached m (load m a)).Disjoint [⟨a, RecordKind.linked.size⟩]) :
    load (mutate m a).2 a = (load m a).grow := by
  have hapart : (reached m (load m a)).Disjoint (spans a) := h.mono_right contains_of_spans
  have htext : Agree (spans a) m (shiftText m (load m a).text) := by
    refine Agree.of_frame hapart ?_
    intro i hi
    rw [reached, Region.contains_append, not_or] at hi
    exact byte_shiftText_of_not_contains hi.2
  have hlink : ∀ m', Agree (spans a) m' (raiseLink m' (load m a).link) := by
    intro m'
    refine Agree.of_frame hapart ?_
    intro i hi
    rw [reached, Region.contains_append, not_or] at hi
    exact byte_raiseLink_of_not_contains hi.1
  rw [mutate_snd]
  rw [← load_congr (hlink _) (List.Subset.refl _), load_raise_raise,
    ← load_congr htext (List.Subset.refl _)]

end LinkedRecord

namespace Value

def slots : Value → List Slot
  | counter r => r.slots
  | composite r => r.slots
  | steps xs => StepRecord.slots xs
  | _ => []

theorem shows_store (v : Value) (m : Memory) (p : Pointer) :
    (v.store m p).Shows p.addr v.slots := by
  cases v with
  | counter r =>
    simp only [store, CounterRecord.store_eq_place]
    exact shows_place r.packed_slots
  | composite r =>
    simp only [store, CompositeRecord.store_eq_place]
    exact shows_place r.packed_slots
  | steps xs => exact StepRecord.shows_slots.mpr (StepRecord.load_storeArray m p.addr xs)
  | _ => exact fun _ hs => nomatch hs

end Value

namespace RecordKind

theorem ofCode?_eq_some {n : Int32} {k : RecordKind} : ofCode? n = some k ↔ k.code = n := by
  constructor
  · intro h
    simpa using List.find?_some h
  · rintro rfl
    exact ofCode?_code k

theorem size_lt (k : RecordKind) : k.size < UInt64.size := by
  cases k <;> decide

theorem field?_code {k : RecordKind} {i : UInt32} (h : i.toNat < k.fields.length) :
    Layout.field? k.code i = some k.fields[i.toNat] := by
  simp [Layout.field?, ofCode?_code, h]

theorem field?_eq_none {kind : Int32} {i : UInt32}
    (h : ∀ k : RecordKind, k.code = kind → k.fields.length ≤ i.toNat) :
    Layout.field? kind i = none := by
  cases hk : ofCode? kind with
  | none => simp [Layout.field?, hk]
  | some k => simpa [Layout.field?, hk] using h k (ofCode?_eq_some.mp hk)

theorem sizeOfCode_of_unknown {kind : Int32} (h : ∀ k : RecordKind, k.code ≠ kind) :
    Layout.sizeOfCode kind = 0 := by
  cases hk : ofCode? kind with
  | none => simp [Layout.sizeOfCode, hk]
  | some k => exact absurd (ofCode?_eq_some.mp hk) (h k)

end RecordKind

structure RecordKind.Reported (k : RecordKind) (m : Memory) : Prop where
  size : ∃ n, (Call.recordSize k.code).run m = (.size n, m) ∧ n.toNat = k.size
  field : ∀ (i : UInt32) (out : Pointer) (h : i.toNat < k.fields.length), out.isNull = false →
    ∃ m', (Call.describeField k.code i out).run m = (.flag 1, m') ∧
      (FieldInfo.load m' out.addr).offset.toNat = k.fields[i.toNat].offset ∧
      (FieldInfo.load m' out.addr).size.toNat = k.fields[i.toNat].size

theorem RecordKind.reported (k : RecordKind) (m : Memory) : k.Reported m where
  size := by
    refine ⟨_, rfl, ?_⟩
    simp only [Layout.sizeOfCode, ofCode?_code, Option.map_some, Option.getD_some]
    exact UInt64.toNat_ofNat_of_lt' k.size_lt
  field := by
    intro i out h hout
    have hend := k.fields_inside (List.getElem_mem h)
    have hsize := k.size_lt
    refine ⟨FieldInfo.store m out.addr (.ofField k.fields[i.toNat]), ?_, ?_, ?_⟩
    · simp [Call.run, FieldInfo.describe, field?_code h, hout]
    · rw [FieldInfo.load_store]
      exact UInt64.toNat_ofNat_of_lt' (by omega)
    · rw [FieldInfo.load_store]
      exact UInt64.toNat_ofNat_of_lt' (by omega)

theorem LinkedRecord.shows_data {m : Memory} {base : Nat} {r : LinkedRecord}
    (h : m.Shows base r.slots) :
    ∃ f ∈ RecordKind.linked.fields, f.name = "s_passingData" ∧
      f.size = RecordKind.numeric.size ∧ m.Shows (base + f.offset) r.data.slots := by
  refine ⟨⟨"s_passingData", 8, 32, .copied⟩, by simp [fields_eq], rfl, rfl, ?_⟩
  exact shows_arrange.mp h (⟨"s_passingData", 8, 32, .copied⟩, .record r.data.slots)
    (by simp [fields_eq])

theorem CompositeRecord.shows_parts {m : Memory} {base : Nat} {r : CompositeRecord}
    (h : m.Shows base r.slots) :
    ∃ f ∈ RecordKind.composite.fields, f.name = "b" ∧ f.size = 3 * RecordKind.counter.size ∧
      ∀ i : Fin 3,
        m.Shows (base + f.offset + i * RecordKind.counter.size) (r.parts.get i).slots := by
  refine ⟨⟨"b", 8, 96, .copied⟩, by simp [fields_eq], rfl, rfl, ?_⟩
  intro i
  have hstride : 96 / 3 = RecordKind.counter.size := rfl
  have hfield := shows_arrange.mp h (⟨"b", 8, 96, .copied⟩,
    .array fun i : Fin 3 => .record r.parts[i].slots) (by simp [fields_eq])
  have hpart := shows_array.mp hfield i
  rw [hstride] at hpart
  exact hpart

namespace Call

variable {m : Memory} {p : Pointer}

theorem describeField_of_absent {kind : Int32} {i : UInt32} {out : Pointer}
    (h : (∀ k : RecordKind, k.code = kind → k.fields.length ≤ i.toNat) ∨ out.isNull = true) :
    (describeField kind i out).run m = (.flag 0, m) := by
  have hdescribe : FieldInfo.describe m kind i out = (0, m) := by
    rcases h with hindex | hnull
    · simp only [FieldInfo.describe, RecordKind.field?_eq_none hindex]
    · unfold FieldInfo.describe
      split
      · rfl
      · rw [if_pos hnull]
  simp only [run, hdescribe]
  rfl

theorem recordSize_of_unknown {kind : Int32} (h : ∀ k : RecordKind, k.code ≠ kind) :
    (recordSize kind).run m = (.size 0, m) := by
  simp only [run, RecordKind.sizeOfCode_of_unknown h]
  rfl

theorem total_of_shows {r : NumericRecord} (h : m.Shows p.addr r.slots) :
    (total p).run m = (.binary64 r.total, m) := by
  simp only [run, NumericRecord.shows_slots.mp h]

theorem mutateLinked_of_null {r : LinkedRecord} (h : m.Shows p.addr r.slots)
    (hnull : r.link.isNull = true) : ((mutateLinked p).run m).1 = .binary64 r.data.total := by
  rw [LinkedRecord.shows_slots] at h
  simp only [run, LinkedRecord.mutate, Prod.map_fst, h, LinkedRecord.total, hnull, if_true]

theorem mutateLinked_of_shows {r : LinkedRecord} {t : NumericRecord}
    (h : m.Shows p.addr r.slots) (hlink : r.link.isNull = false)
    (ht : m.Shows r.link.addr t.slots) :
    ((mutateLinked p).run m).1 = .binary64 (r.data.total + t.total) := by
  rw [LinkedRecord.shows_slots] at h
  rw [NumericRecord.shows_slots] at ht
  simp only [run, LinkedRecord.mutate, Prod.map_fst, h, LinkedRecord.total, hlink,
    Bool.false_eq_true, if_false, ht]

theorem shows_incrementInPlace {r : CounterRecord} {inc : Int32} (h : m.Shows p.addr r.slots)
    (hd : (r.d.span 4).Disjoint [⟨p.addr, RecordKind.counter.size⟩]) :
    ((incrementInPlace p inc).run m).2.Shows p.addr (r.grow inc).slots := by
  rw [CounterRecord.shows_slots] at h ⊢
  subst h
  simp only [run]
  exact CounterRecord.load_incrementInPlace inc hd

theorem shows_mutateLinked {r : LinkedRecord} (h : m.Shows p.addr r.slots)
    (hd : (r.reached m).Disjoint [⟨p.addr, RecordKind.linked.size⟩]) :
    ((mutateLinked p).run m).2.Shows p.addr r.grow.slots := by
  rw [LinkedRecord.shows_slots] at h ⊢
  subst h
  simp only [run, Prod.map_snd, id_eq]
  exact LinkedRecord.load_mutate hd

theorem shows_incrementCopy (m' : Memory) (r : CounterRecord) (inc : Int32) :
    (((incrementCopy r inc).run m).1.store m' p).Shows p.addr (r.grow inc).slots := by
  simp only [run, CounterRecord.incrementCopy, Prod.map_fst]
  exact Value.shows_store (.counter (r.grow inc)) m' p

theorem shows_buildComposite (m' : Memory) (first second message : Pointer) :
    (((buildComposite first second message).run m).1.store m' p).Shows p.addr
      (CompositeRecord.build m first second message).slots := by
  simp only [run]
  exact Value.shows_store (.composite _) m' p

theorem shows_fixedSteps (m' : Memory) (lower step : Binary64) :
    (((fixedSteps lower step).run m).1.store m' p).Shows p.addr
      (StepRecord.slots (AbiConformance.fixedSteps lower step)) := by
  simp only [run]
  exact Value.shows_store (.steps _) m' p

end Call

theorem RecordKind.tables_describe_accesses :
    let added : NumericRecord → Binary64 := fun r =>
      .zero + .ofInt r.long.toInt + r.float.toBinary64 + .ofInt r.int.toInt + r.double
    (∀ (k : RecordKind) (m : Memory), k.Reported m) ∧
    (∀ (m : Memory) (kind : Int32) (i : UInt32) (out : Pointer),
      ((∀ k : RecordKind, k.code ≠ kind) → (Call.recordSize kind).run m = (.size 0, m)) ∧
      ((∀ k : RecordKind, k.code = kind → k.fields.length ≤ i.toNat) ∨ out.isNull = true →
        (Call.describeField kind i out).run m = (.flag 0, m))) ∧
    (∀ (k : RecordKind) (r : k.Carrier) (m : Memory) (base : Nat),
      (m.place base (k.slots r)).Shows base (k.slots r) ∧
      (∀ i, i < base ∨ base + k.size ≤ i → (m.place base (k.slots r)).byte i = m.byte i) ∧
      (m.Shows base (k.slots r) ↔ k.load m base = r)) ∧
    (∀ (r : LinkedRecord) (m : Memory) (base : Nat), m.Shows base r.slots →
      ∃ f ∈ linked.fields, f.name = "s_passingData" ∧ f.size = numeric.size ∧
        m.Shows (base + f.offset) r.data.slots) ∧
    (∀ (r : CompositeRecord) (m : Memory) (base : Nat), m.Shows base r.slots →
      ∃ f ∈ composite.fields, f.name = "b" ∧ f.size = 3 * counter.size ∧
        ∀ i : Fin 3, m.Shows (base + f.offset + i * counter.size) (r.parts.get i).slots) ∧
    (∀ (r : NumericRecord) (m : Memory) (p : Pointer), m.Shows p.addr r.slots →
      (Call.total p).run m = (.binary64 (added r), m)) ∧
    (∀ (r : CounterRecord) (m : Memory) (p : Pointer) (inc : Int32), m.Shows p.addr r.slots →
      (r.d.span 4).Disjoint [⟨p.addr, counter.size⟩] →
      ((Call.incrementInPlace p inc).run m).2.Shows p.addr (r.grow inc).slots) ∧
    (∀ (r : LinkedRecord) (m : Memory) (p : Pointer), m.Shows p.addr r.slots →
      (r.link.isNull = true → ((Call.mutateLinked p).run m).1 = .binary64 (added r.data)) ∧
      (∀ t : NumericRecord, r.link.isNull = false → m.Shows r.link.addr t.slots →
        ((Call.mutateLinked p).run m).1 = .binary64 (added r.data + added t)) ∧
      ((r.reached m).Disjoint [⟨p.addr, linked.size⟩] →
        ((Call.mutateLinked p).run m).2.Shows p.addr r.grow.slots)) ∧
    ∀ (m m' : Memory) (p : Pointer),
      (∀ (r : CounterRecord) (inc : Int32),
        (((Call.incrementCopy r inc).run m).1.store m' p).Shows p.addr (r.grow inc).slots) ∧
      (∀ first second message : Pointer,
        let copied : Pointer → CounterRecord := fun q =>
          if q.isNull then ⟨0, 0, 0, .null⟩ else CounterRecord.load m q.addr
        (((Call.buildComposite first second message).run m).1.store m' p).Shows p.addr
          (CompositeRecord.slots
            ⟨first, #v[copied second, copied first, ⟨0, 0, 0, .null⟩], message⟩)) ∧
      ∀ lower step : Binary64,
        (((Call.fixedSteps lower step).run m).1.store m' p).Shows p.addr
          (StepRecord.slots (Vector.ofFn fun i => lower + .ofInt (i : Nat) * step)) := by
  intro added
  have hadded : ∀ r : NumericRecord, r.total = added r := fun r => rfl
  refine ⟨RecordKind.reported, ?_, ?_, ?_, ?_, ?_, ?_, ?_, ?_⟩
  · exact fun m kind i out => ⟨Call.recordSize_of_unknown, Call.describeField_of_absent⟩
  · intro k r m base
    have hpacked := k.packed_slots r
    exact ⟨shows_place hpacked, fun i => byte_place_of_not_mem hpacked, k.shows_slots⟩
  · exact fun r m base => LinkedRecord.shows_data
  · exact fun r m base => CompositeRecord.shows_parts
  · intro r m p h
    rw [← hadded]
    exact Call.total_of_shows h
  · exact fun r m p inc => Call.shows_incrementInPlace
  · intro r m p h
    refine ⟨fun hnull => ?_, fun t hlink ht => ?_, Call.shows_mutateLinked h⟩
    · rw [← hadded]
      exact Call.mutateLinked_of_null h hnull
    · rw [← hadded, ← hadded]
      exact Call.mutateLinked_of_shows h hlink ht
  · exact fun m m' p =>
      ⟨Call.shows_incrementCopy m', Call.shows_buildComposite m', Call.shows_fixedSteps m'⟩

def separateBlocks : Memory :=
  (((Memory.empty.write 320 [97, 98, 0]).place 64
    (CounterRecord.slots ⟨1, 2, 3, .ofAddr 256⟩)).place 128
    (LinkedRecord.slots ⟨5, ⟨7, 8, .zero, .one⟩, .ofAddr 256, .ofAddr 320⟩)).place 256
    (NumericRecord.slots ⟨1, -6, .zero, .one⟩)

theorem RecordKind.tables_describe_accesses_separateBlocks :
    let m := separateBlocks
    let p : Pointer := .ofAddr 64
    let q : Pointer := .ofAddr 128
    let r : CounterRecord := ⟨1, 2, 3, .ofAddr 256⟩
    let s : LinkedRecord := ⟨5, ⟨7, 8, .zero, .one⟩, .ofAddr 256, .ofAddr 320⟩
    let t : NumericRecord := ⟨1, -6, .zero, .one⟩
    m.Shows p.addr r.slots ∧ m.Shows q.addr s.slots ∧ m.Shows s.link.addr t.slots ∧
      (r.d.span 4).Disjoint [⟨p.addr, counter.size⟩] ∧
      (s.reached m).Disjoint [⟨q.addr, linked.size⟩] ∧
      (Call.total s.link).run m = (.binary64 (.ofInt (-4)), m) ∧
      ((Call.incrementInPlace p (-9)).run m).2.Shows p.addr
        (CounterRecord.slots ⟨-8, -7, -6, .ofAddr 256⟩) ∧
      ((Call.mutateLinked q).run m).1 = .binary64 (.ofInt 12) ∧
      ((Call.mutateLinked q).run m).2.Shows q.addr
        (LinkedRecord.slots ⟨15, ⟨17, 8, .zero, .one⟩, .ofAddr 256, .ofAddr 320⟩) ∧
      (((Call.buildComposite p .null q).run m).1.store m q).Shows q.addr
        (CompositeRecord.slots ⟨p, #v[⟨0, 0, 0, .null⟩, r, ⟨0, 0, 0, .null⟩], q⟩) ∧
      (Call.recordSize 5).run m = (.size 0, m) ∧
      (Call.describeField 4 1 q).run m = (.flag 0, m) := by
  intro m p q r s t
  have hr : m.Shows p.addr r.slots := CounterRecord.shows_slots.mpr (by decide +kernel)
  have hs : m.Shows q.addr s.slots := LinkedRecord.shows_slots.mpr (by decide +kernel)
  have ht : m.Shows s.link.addr t.slots := NumericRecord.shows_slots.mpr (by decide +kernel)
  have hd : (r.d.span 4).Disjoint [⟨p.addr, counter.size⟩] := by
    apply Region.disjoint_of_apart
    decide +kernel
  have hreached : (s.reached m).Disjoint [⟨q.addr, linked.size⟩] := by
    apply Region.disjoint_of_apart
    decide +kernel
  have hgrow : r.grow (-9) = ⟨-8, -7, -6, .ofAddr 256⟩ := by decide
  have hgrow' : s.grow = ⟨15, ⟨17, 8, .zero, .one⟩, .ofAddr 256, .ofAddr 320⟩ := by decide
  obtain ⟨-, habsent, -, -, -, htotal, hincrement, hmutate, hreturned⟩ := tables_describe_accesses
  obtain ⟨-, hsum, hlinked⟩ := hmutate s m q hs
  have hcounter := hincrement r m p (-9) hr hd
  have hupdated := hlinked hreached
  have hbuilt := (hreturned m m q).2.1 p .null q
  have hfirst : CounterRecord.load m p.addr = r := CounterRecord.shows_slots.mp hr
  rw [hgrow] at hcounter
  rw [hgrow'] at hupdated
  simp only [hfirst] at hbuilt
  refine ⟨hr, hs, ht, hd, hreached, (htotal t m s.link ht).trans ?_, hcounter,
    (hsum t rfl ht).trans ?_, hupdated, hbuilt, ?_, ?_⟩
  · exact congrArg (fun x => (Value.binary64 x, m)) (by decide +kernel)
  · exact congrArg Value.binary64 (by decide +kernel)
  · exact (habsent m 5 0 q).1 (by intro k; cases k <;> decide)
  · exact (habsent m 4 1 q).2 (Or.inl (by intro k; cases k <;> decide))

end AbiConformance
