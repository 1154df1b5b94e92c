import AbiConformance.Proofs.Record.Increment
import AbiConformance.Record.FieldInfo
import AbiConformance.Record.Linked

namespace AbiConformance

open Memory

namespace NumericRecord

def spans (a : Nat) : Region := [⟨a, 4⟩, ⟨a + 8, 8⟩, ⟨a + 16, 4⟩, ⟨a + 24, 8⟩]

theorem load_congr {r : Region} {m m' : Memory} {a : Nat} (h : Agree r m m') (hs : spans a ⊆ r) :
    load m a = load m' a := by
  have hint : m.load Int32 a = m'.load Int32 a := h.load (hs (by simp [spans])) rfl
  have hlong : m.load Int64 (a + 8) = m'.load Int64 (a + 8) := h.load (hs (by simp [spans])) rfl
  have hfloat : m.load Binary32 (a + 16) = m'.load Binary32 (a + 16) :=
    h.load (hs (by simp [spans])) rfl
  have hdouble : m.load Binary64 (a + 24) = m'.load Binary64 (a + 24) :=
    h.load (hs (by simp [spans])) rfl
  simp only [load, hint, hlong, hfloat, hdouble]

end NumericRecord

namespace CounterRecord

def spans (a : Nat) : Region := counterSpans a ++ [⟨a + 24, 8⟩]

theorem load_congr {r : Region} {m m' : Memory} {a : Nat} (h : Agree r m m') (hs : spans a ⊆ r) :
    load m a = load m' a := by
  have ha : m.load Int32 a = m'.load Int32 a := h.load (hs (by simp [spans, counterSpans])) rfl
  have hb : m.load Int64 (a + 8) = m'.load Int64 (a + 8) :=
    h.load (hs (by simp [spans, counterSpans])) rfl
  have hc : m.load Int64 (a + 16) = m'.load Int64 (a + 16) :=
    h.load (hs (by simp [spans, counterSpans])) rfl
  have hd : m.load Pointer (a + 24) = m'.load Pointer (a + 24) := h.load (hs (by simp [spans])) rfl
  simp only [load, ha, hb, hc, hd]

theorem loadOrZero_congr {r : Region} {m m' : Memory} {p : Pointer} (h : Agree r m m')
    (hs : p.region spans ⊆ r) : loadOrZero m p = loadOrZero m' p := by
  cases hp : p.isNull with
  | true => simp [loadOrZero, hp]
  | false =>
    rw [Pointer.region_of_not_null hp] at hs
    simp [loadOrZero, hp, load_congr h hs]

theorem targetOf_congr {r : Region} {m m' : Memory} {p : Pointer} (h : Agree r m m')
    (hs : spans p.addr ⊆ r) : targetOf m p = targetOf m' p := by
  rw [targetOf, targetOf, load_congr h hs]

end CounterRecord

namespace LinkedRecord

def spans (a : Nat) : Region :=
  ⟨a, 4⟩ :: NumericRecord.spans (a + 8) ++ [⟨a + 40, 8⟩, ⟨a + 48, 8⟩]

def mutateReads (m : Memory) (a : Nat) : Region :=
  spans a ++ (load m a).link.region NumericRecord.spans ++ m.stringSpan (load m a).text

def textSpan (m : Memory) (text : Pointer) : Region := text.span (m.stringAt text).length

def mutateWrites (m : Memory) (a : Nat) : Region :=
  [⟨a, 4⟩, ⟨a + 8, 4⟩] ++ (load m a).link.span 4 ++ textSpan m (load m a).text

theorem load_congr {r : Region} {m m' : Memory} {a : Nat} (h : Agree r m m') (hs : spans a ⊆ r) :
    load m a = load m' a := by
  have hid : m.load Int32 a = m'.load Int32 a := h.load (hs (by simp [spans])) rfl
  have hdata : NumericRecord.load m (a + 8) = NumericRecord.load m' (a + 8) :=
    NumericRecord.load_congr h fun s hmem => hs (by simp [spans, hmem])
  have hlink : m.load Pointer (a + 40) = m'.load Pointer (a + 40) :=
    h.load (hs (by simp [spans])) rfl
  have htext : m.load Pointer (a + 48) = m'.load Pointer (a + 48) :=
    h.load (hs (by simp [spans])) rfl
  simp only [load, hid, hdata, hlink, htext]

theorem total_congr {r : Region} {m m' : Memory} {l : LinkedRecord} (h : Agree r m m')
    (hs : l.link.region NumericRecord.spans ⊆ r) : total m l = total m' l := by
  cases hl : l.link.isNull with
  | true => simp [total, hl]
  | false =>
    rw [Pointer.region_of_not_null hl] at hs
    simp [total, hl, NumericRecord.load_congr h hs]

theorem mutate_memory (m : Memory) (a : Nat) :
    (mutate m a).2 = (shiftText m (load m a).text).addAll
      (spread [⟨a, 4⟩, ⟨a + 8, 4⟩] 10 ++ spread ((load m a).link.span 4) 20) := by
  have h10 : ∀ (m : Memory) (b : Nat), raise m b 10 = m.addWord b 4 10 :=
    fun m b => modify_int32 m b 10
  have h20 : ∀ (m : Memory) (b : Nat), raise m b 20 = m.addWord b 4 20 :=
    fun m b => modify_int32 m b 20
  simp only [mutate, h10, h20]
  cases hl : (load m a).link.isNull with
  | true =>
    rw [if_pos rfl, Pointer.span_of_null hl]
    rfl
  | false =>
    rw [if_neg Bool.false_ne_true, Pointer.span_of_not_null hl]
    rfl

theorem byte_shiftText_of_not_contains {m : Memory} {text : Pointer} {i : Nat}
    (h : ¬(textSpan m text).Contains i) : (shiftText m text).byte i = m.byte i := by
  unfold shiftText
  cases ht : text.isNull with
  | true => simp [stringAt, ht, shiftToUpper]
  | false =>
    apply byte_write_of_not_contains h
    simp [textSpan, ht]

theorem shiftText_congr {r : Region} {m m' : Memory} (h : Agree r m m') (text : Pointer)
    (hs : m.stringSpan text ⊆ r) : Agree r (shiftText m text) (shiftText m' text) := by
  rw [shiftText, shiftText, h.stringAt hs]
  exact h.write _ _

theorem mem_mutateWrites {m : Memory} {a : Nat} {x : Addend}
    (hx : x ∈ spread [⟨a, 4⟩, ⟨a + 8, 4⟩] 10 ++ spread ((load m a).link.span 4) 20) :
    x.word ∈ mutateWrites m a := by
  rcases List.mem_append.mp hx with hx | hx
  · exact List.mem_append_left _ (List.mem_append_left _ (mem_of_mem_spread hx))
  · exact List.mem_append_left _ (List.mem_append_right _ (mem_of_mem_spread hx))

theorem byte_mutate_of_not_contains {m : Memory} {a i : Nat}
    (h : ¬(mutateWrites m a).Contains i) : (mutate m a).2.byte i = m.byte i := by
  rw [mutate_memory, byte_addAll_of_not_contains h fun x => mem_mutateWrites]
  apply byte_shiftText_of_not_contains
  intro ht
  exact h (Region.contains_append.mpr (Or.inr ht))

theorem mutate_value_congr {m m' : Memory} {a : Nat} (h : Agree (mutateReads m a) m m') :
    (mutate m a).1 = (mutate m' a).1 := by
  have hload : load m a = load m' a := load_congr h fun s hs => by simp [mutateReads, hs]
  simp only [mutate, ← hload]
  exact total_congr h fun s hs => by simp [mutateReads, hs]

theorem mutateReads_congr {m m' : Memory} {a : Nat} (h : Agree (mutateReads m a) m m') :
    mutateReads m a = mutateReads m' a := by
  have hload : load m a = load m' a := load_congr h fun s hs => by simp [mutateReads, hs]
  have htext : m.stringSpan (load m a).text = m'.stringSpan (load m a).text :=
    h.stringSpan fun s hs => by simp [mutateReads, hs]
  rw [mutateReads, mutateReads, ← hload, htext]

theorem mutateWrites_congr {m m' : Memory} {a : Nat} (h : Agree (mutateReads m a) m m') :
    mutateWrites m a = mutateWrites m' a := by
  have hload : load m a = load m' a := load_congr h fun s hs => by simp [mutateReads, hs]
  have htext : m.stringAt (load m a).text = m'.stringAt (load m a).text :=
    h.stringAt fun s hs => by simp [mutateReads, hs]
  rw [mutateWrites, mutateWrites, ← hload, textSpan, textSpan, htext]

theorem mutate_agree {m m' : Memory} {a : Nat}
    (h : Agree (mutateReads m a ++ mutateWrites m a) m m') :
    Agree (mutateReads m a ++ mutateWrites m a) (mutate m a).2 (mutate m' a).2 := by
  have hload : load m a = load m' a := load_congr h fun s hs => by simp [mutateReads, hs]
  have htext := shiftText_congr h (load m a).text fun s hs => by simp [mutateReads, hs]
  rw [mutate_memory, mutate_memory, ← hload]
  exact htext.addAll fun x hx => List.mem_append_right _ (mem_mutateWrites hx)

end LinkedRecord

end AbiConformance
