import AbiConformance.Proofs.Record.Mutation
import AbiConformance.Proofs.Text.Truncation

namespace AbiConformance

namespace Memory

theorem scan_eq_takeWhile {m : Memory} {a n fuel : Nat} (h : m.byte (a + n) = 0)
    (hf : n < fuel) : m.scan a fuel = (m.read a n).takeWhile (· != 0) := by
  induction n generalizing a fuel with
  | zero =>
    obtain ⟨fuel, rfl⟩ := Nat.exists_eq_add_of_lt hf
    simpa [scan, read] using h
  | succ n ih =>
    cases fuel with
    | zero => omega
    | succ fuel =>
      rw [read_succ, List.takeWhile_cons, scan]
      have hrest : m.byte (a + 1 + n) = 0 := by
        rw [← h]
        congr 1
        omega
      by_cases hz : m.byte a = 0
      · simp [hz]
      · simp [hz, ih hrest (Nat.lt_of_succ_lt_succ hf)]

theorem EndsAfter.stringAt_eq {m : Memory} {p : Pointer} {n : Nat} (h : m.EndsAfter p n) :
    m.stringAt p = (m.read p.addr n).takeWhile (· != 0) := by
  cases h with
  | null hp =>
    rw [stringAt, if_pos hp]
    rfl
  | stored hp hend hroom =>
    rw [stringAt, if_neg (Bool.eq_false_iff.mp hp)]
    exact scan_eq_takeWhile hend (by omega)

theorem EndsAfter.length_stringAt_le {m : Memory} {p : Pointer} {n : Nat} (h : m.EndsAfter p n) :
    (m.stringAt p).length ≤ n := by
  rw [h.stringAt_eq]
  simpa using (List.takeWhile_sublist (· != 0) (l := m.read p.addr n)).length_le

theorem NamesString.read_eq {m : Memory} {p : Pointer} {bs : List UInt8}
    (h : m.NamesString p bs) : m.read p.addr bs.length = bs := by
  cases h with
  | null hp => rfl
  | stored hp hstring hroom => exact hstring.1

theorem read_write_front {m : Memory} {a n : Nat} {bs : List UInt8} (h : bs.length ≤ n) :
    (m.write a bs).read a n = bs ++ (m.read a n).drop bs.length := by
  obtain ⟨k, rfl⟩ := Nat.exists_eq_add_of_le h
  rw [read_add, read_write, read_write_of_disjoint (Or.inr (Nat.le_refl _)), read_add m,
    List.drop_left' (length_read ..)]

end Memory

open Memory

namespace LinkedRecord

theorem read_shiftText {m : Memory} {text : Pointer} {n : Nat} (h : m.EndsAfter text n) :
    (shiftText m text).read text.addr n = shiftLive (m.read text.addr n) := by
  have hlive := h.length_stringAt_le
  have hdrop : (m.read text.addr n).drop ((m.read text.addr n).takeWhile (· != 0)).length =
      (m.read text.addr n).dropWhile (· != 0) := by
    conv_lhs =>
      arg 2
      rw [← List.takeWhile_append_dropWhile (p := (· != 0)) (l := m.read text.addr n)]
    exact List.drop_left
  rw [shiftText, read_write_front (by rwa [length_shiftToUpper]), length_shiftToUpper,
    h.stringAt_eq, hdrop, shiftLive]

/-- Neither the record nor the integer it links lies under the `n` bytes of the text or the zero
after them, and that integer is not over the two pointers. -/
structure Detached (base : Nat) (link text : Pointer) (n : Nat) : Prop where
  record : (text.span (n + 1)).Disjoint [⟨base, size⟩]
  linked : (text.span (n + 1)).Disjoint (link.span 4)
  link_clear : (link.span 4).Disjoint [⟨base + 40, 16⟩]

structure Steady (base : Nat) (link text : Pointer) (n : Nat) (m : Memory) : Prop where
  link_eq : (load m base).link = link
  text_eq : (load m base).text = text
  ends : m.EndsAfter text n

variable {base n a : Nat} {p link text : Pointer} {m : Memory}

theorem Steady.contains_textSpan (h : Steady base link text n m) {i : Nat}
    (hi : (textSpan m text).Contains i) : (text.span n).Contains i :=
  Pointer.contains_span_of_le h.ends.length_stringAt_le hi

theorem Detached.text_disjoint {k : Nat} (h : Detached base link text n)
    (ha : base ≤ a ∧ a + k ≤ base + size) : (text.span n).Disjoint [⟨a, k⟩] :=
  (h.record.within ha).mono_left (Pointer.contains_span_of_le (Nat.le_succ n))

theorem byte_mutate_of_not_counter {i : Nat} (hi : ¬(counters base (load m base)).Contains i) :
    (mutate m base).2.byte i = (shiftText m (load m base).text).byte i := by
  rw [counters, Region.contains_append, not_or] at hi
  obtain ⟨hown, hlink⟩ := hi
  simp only [Region.contains_cons, Region.not_contains_nil, or_false, not_or, Span.Contains] at hown
  rw [mutate_snd, byte_raiseLink_of_not_contains hlink]
  have hraise : ∀ (m' : Memory) (a : Nat), (i < a ∨ a + 4 ≤ i) →
      (raise m' a 10).byte i = m'.byte i := fun m' a ha => byte_store_of_not_mem ha
  rw [hraise _ _ (by omega), hraise _ _ (by omega)]

theorem Detached.not_counter (h : Detached base link text n) (hs : Steady base link text n m)
    {i : Nat} (hi : (text.span (n + 1)).Contains i) :
    ¬(counters base (load m base)).Contains i := by
  rw [counters, hs.link_eq, Region.contains_append, not_or]
  constructor
  · intro hown
    apply h.record i hi
    rw [Region.contains_singleton, size]
    simp only [Region.contains_cons, Region.not_contains_nil, or_false, Span.Contains] at hown
    omega
  · exact h.linked i hi

theorem Steady.read_mutate (hs : Steady base link text n m) (h : Detached base link text n) :
    (mutate m base).2.read text.addr n = shiftLive (m.read text.addr n) := by
  cases hp : text.isNull with
  | true =>
    obtain rfl : n = 0 := by
      cases hs.ends with
      | null => rfl
      | stored hp' => exact absurd hp (Bool.eq_false_iff.mp hp')
    rfl
  | false =>
    rw [← read_shiftText hs.ends]
    apply read_congr
    intro i hi
    rw [← hs.text_eq]
    apply byte_mutate_of_not_counter
    apply h.not_counter hs
    rw [hs.text_eq, Pointer.span_of_not_null hp, Region.contains_singleton]
    omega

theorem Steady.mutate (hs : Steady base link text n m) (h : Detached base link text n) :
    Steady base link text n (mutate m base).2 := by
  have htext : (textSpan m (load m base).text).Disjoint [⟨base + 40, 16⟩] := by
    rw [hs.text_eq]
    exact (h.text_disjoint (by simp only [size]; omega)).mono_left hs.contains_textSpan
  have hpointers := pointers_mutate (hs.link_eq ▸ h.link_clear) htext
  refine ⟨hpointers.1.trans hs.link_eq, hpointers.2.trans hs.text_eq, ?_⟩
  cases hs.ends with
  | null hp => exact .null hp
  | stored hp hend hroom =>
    refine .stored hp ?_ hroom
    -- the text may end before this byte by now, but an update still writes nothing over it
    rw [byte_mutate_of_not_counter, byte_shiftText_of_not_contains, hend]
    · intro htext
      rw [hs.text_eq] at htext
      have hinside := hs.contains_textSpan htext
      rw [Pointer.span_of_not_null hp, Region.contains_singleton] at hinside
      omega
    · apply h.not_counter hs
      rw [Pointer.span_of_not_null hp, Region.contains_singleton]
      omega

structure IntegerAt (base : Nat) (link text : Pointer) (n a : Nat) : Prop where
  own : a = base ∨ a + 4 ≤ base ∨ base + 4 ≤ a
  data : a = base + 8 ∨ a + 4 ≤ base + 8 ∨ base + 12 ≤ a
  linked : link.isNull = false → a = link.addr ∨ a + 4 ≤ link.addr ∨ link.addr + 4 ≤ a
  text : (text.span n).Disjoint [⟨a, 4⟩]

def gain (base : Nat) (link : Pointer) (a : Nat) : Nat :=
  (if a = base then 10 else 0) + (if a = base + 8 then 10 else 0) +
    if link.isNull = false ∧ a = link.addr then 20 else 0

theorem load_raise {b : Nat} (k : Nat) (h : a = b ∨ a + 4 ≤ b ∨ b + 4 ≤ a) :
    (raise m b (.ofNat k)).load Int32 a = m.load Int32 a + .ofNat (if a = b then k else 0) := by
  by_cases hab : a = b
  · subst hab
    rw [if_pos rfl]
    exact load_modify m a _
  · rw [if_neg hab, raise, load_modify_of_disjoint (by simpa [hab] using h)]
    simp

theorem Steady.load_shiftText (hs : Steady base link text n m)
    (h : (text.span n).Disjoint [⟨a, 4⟩]) :
    (shiftText m text).load Int32 a = m.load Int32 a := by
  apply Memory.load_congr
  intro i hi
  apply byte_shiftText_of_not_contains
  intro htext
  apply h (a + i) (hs.contains_textSpan htext)
  rw [Scalar.width_int32] at hi
  rw [Region.contains_singleton]
  omega

theorem Steady.load_mutate (hs : Steady base link text n m) (ha : IntegerAt base link text n a) :
    (LinkedRecord.mutate m base).2.load Int32 a = m.load Int32 a + .ofNat (gain base link a) := by
  -- the record's own counters first: the link may be either of them or neither
  have hown : (raise (raise (shiftText m text) base 10) (base + 8) 10).load Int32 a =
      m.load Int32 a + .ofNat ((if a = base then 10 else 0) + if a = base + 8 then 10 else 0) := by
    rw [Int32.ofNat_add, ← Int32.add_assoc, ← hs.load_shiftText ha.text, ← load_raise 10 ha.own,
      ← load_raise 10 ha.data]
    rfl
  rw [mutate_snd, hs.text_eq, hs.link_eq, gain, Int32.ofNat_add, ← Int32.add_assoc, ← hown,
    raiseLink]
  cases hp : link.isNull with
  | true => simp
  | false =>
    simp only [Bool.false_eq_true, if_false, true_and]
    exact load_raise 20 (ha.linked hp)

def afterCalls (p : Pointer) (k : Nat) (m : Memory) : Memory :=
  (fun m => ((Call.mutateLinked p).run m).2)^[k] m

theorem afterCalls_succ (p : Pointer) (k : Nat) (m : Memory) :
    afterCalls p (k + 1) m = (mutate (afterCalls p k m) p.addr).2 := by
  rw [afterCalls, Function.iterate_succ_apply', run_mutateLinked, afterCalls]

theorem Steady.afterCalls (hs : Steady p.addr link text n m) (h : Detached p.addr link text n)
    (k : Nat) : Steady p.addr link text n (afterCalls p k m) := by
  induction k with
  | zero => exact hs
  | succ k ih =>
    rw [afterCalls_succ]
    exact ih.mutate h

theorem Steady.read_afterCalls (hs : Steady p.addr link text n m)
    (h : Detached p.addr link text n) (k : Nat) :
    (LinkedRecord.afterCalls p k m).read text.addr n = settle k (m.read text.addr n) := by
  rw [← shiftLive_iterate]
  induction k with
  | zero => rfl
  | succ k ih =>
    rw [afterCalls_succ, (hs.afterCalls h k).read_mutate h, ih, Function.iterate_succ_apply']

theorem Steady.byte_afterCalls (hs : Steady p.addr link text n m)
    (h : Detached p.addr link text n) (k : Nat) {i : Nat}
    (hi : ¬(counters p.addr (load m p.addr) ++ text.span n).Contains i) :
    (LinkedRecord.afterCalls p k m).byte i = m.byte i := by
  induction k with
  | zero => rfl
  | succ k ih =>
    have hk := hs.afterCalls h k
    rw [afterCalls_succ, ← ih]
    rw [Region.contains_append, not_or, counters, hs.link_eq] at hi
    rw [byte_mutate_of_not_counter (by rw [counters, hk.link_eq]; exact hi.1), hk.text_eq,
      byte_shiftText_of_not_contains fun htext => hi.2 (hk.contains_textSpan htext)]

theorem Steady.load_afterCalls (hs : Steady p.addr link text n m)
    (h : Detached p.addr link text n) (k : Nat) (ha : IntegerAt p.addr link text n a) :
    (LinkedRecord.afterCalls p k m).load Int32 a =
      m.load Int32 a + .ofNat (gain p.addr link a * k) := by
  induction k with
  | zero => simp [LinkedRecord.afterCalls]
  | succ k ih =>
    rw [afterCalls_succ, (hs.afterCalls h k).load_mutate ha, ih, Int32.add_assoc,
      ← Int32.ofNat_add, Nat.mul_succ]

def LinkPlaced (base : Nat) (link : Pointer) : Prop :=
  link.addr = base + 8 ∨ (link.span 4).Disjoint [⟨base, size⟩]

theorem LinkPlaced.apart (h : LinkPlaced base link) (hp : link.isNull = false) :
    link.addr = base + 8 ∨ link.addr + 4 ≤ base ∨ base + size ≤ link.addr := by
  rcases h with hdata | houtside
  · exact Or.inl hdata
  · rw [Pointer.span_of_not_null hp] at houtside
    exact Or.inr (Region.apart_of_disjoint (by decide) (by decide) houtside)

theorem Detached.integerAt_id (h : Detached base link text n) (hl : LinkPlaced base link) :
    IntegerAt base link text n base where
  own := Or.inl rfl
  data := by omega
  linked hp := by
    have := hl.apart hp
    simp only [size] at this
    omega
  text := h.text_disjoint (by simp only [size]; omega)

theorem Detached.integerAt_data (h : Detached base link text n) (hl : LinkPlaced base link) :
    IntegerAt base link text n (base + 8) where
  own := by omega
  data := Or.inl rfl
  linked hp := by
    have := hl.apart hp
    simp only [size] at this
    omega
  text := h.text_disjoint (by simp only [size]; omega)

theorem Detached.integerAt_link (h : Detached base link text n) (hl : LinkPlaced base link)
    (hp : link.isNull = false) : IntegerAt base link text n link.addr := by
  have hplace := hl.apart hp
  simp only [size] at hplace
  refine ⟨by omega, by omega, fun _ => Or.inl rfl, ?_⟩
  intro i hi
  have hlinked := h.linked i (Pointer.contains_span_of_le (Nat.le_succ n) hi)
  rwa [Pointer.span_of_not_null hp] at hlinked

theorem gain_id (hl : LinkPlaced base link) : gain base link base = 10 := by
  have hne : ¬(link.isNull = false ∧ base = link.addr) := by
    rintro ⟨hp, hbase⟩
    have := hl.apart hp
    simp only [size] at this
    omega
  simp [gain, hne]

theorem gain_data (base : Nat) (link : Pointer) :
    gain base link (base + 8) = if link.addr = base + 8 then 30 else 10 := by
  by_cases hdata : link.addr = base + 8
  · have hp : link.isNull = false := by
      rw [Bool.eq_false_iff, Ne, Pointer.isNull_iff]
      omega
    simp [gain, hdata, hp]
  · simp [gain, hdata, Ne.symm hdata]

theorem gain_link (hl : LinkPlaced base link) (hp : link.isNull = false)
    (hne : link.addr ≠ base + 8) : gain base link link.addr = 20 := by
  have hplace := hl.apart hp
  have hid : link.addr ≠ base := by
    simp only [size] at hplace
    omega
  simp [gain, hid, hne, hp]

theorem mutate_repeated_closed_form {m : Memory} {p : Pointer} {bs : List UInt8}
    (htext : m.NamesString (load m p.addr).text bs)
    (h : Detached p.addr (load m p.addr).link (load m p.addr).text bs.length) (k : Nat) :
    let r := load m p.addr
    let m' := afterCalls p k m
    (∀ i (hi : i < bs.length), m'.byte (r.text.addr + i) =
        bs[i] - .ofNat (32 * min k ((firstStop (bs.take (i + 1))).getD k))) ∧
      (∀ i, ¬(counters p.addr r ++ r.text.span bs.length).Contains i →
        m'.byte i = m.byte i) ∧
      (r.text.isNull = false → m'.byte (r.text.addr + bs.length) = 0) ∧
      (∀ j (hj : j < bs.length), bs[j].toNat % 32 = 0 → bs[j].toNat / 32 ≤ k →
        (m'.stringAt r.text).length ≤ j) ∧
      ((∀ t, firstStop bs = some t → k ≤ t) →
        m'.read r.text.addr bs.length = shiftToUpper^[k] bs) ∧
      (LinkPlaced p.addr r.link →
        (load m' p.addr).id = r.id + .ofNat (10 * k) ∧
        (load m' p.addr).data.int =
          r.data.int + .ofNat ((if r.link.addr = p.addr + 8 then 30 else 10) * k) ∧
        (r.link.isNull = false → r.link.addr ≠ p.addr + 8 →
          (NumericRecord.load m' r.link.addr).int =
            (NumericRecord.load m r.link.addr).int + .ofNat (20 * k))) := by
  have hs : Steady p.addr (load m p.addr).link (load m p.addr).text bs.length m :=
    ⟨rfl, rfl, htext.endsAfter⟩
  have hk := hs.afterCalls h k
  have hread := hs.read_afterCalls h k
  rw [htext.read_eq] at hread
  refine ⟨?_, fun i => hs.byte_afterCalls h k, hk.ends.byte_end, ?_, ?_, ?_⟩
  · intro i hi
    have hcell := getElem?_settle k hi
    rw [← hread, List.getElem?_eq_getElem (by simpa using hi), getElem_read] at hcell
    exact Option.some.inj hcell
  · intro j hj hstop hle
    rw [hk.ends.stringAt_eq, hread]
    exact length_takeWhile_settle_le hj hstop hle
  · intro hstop
    rw [hread, settle_eq_shiftToUpper_iterate hstop]
  · intro hl
    refine ⟨?_, ?_, ?_⟩
    · rw [← gain_id hl]
      exact hs.load_afterCalls h k (h.integerAt_id hl)
    · rw [← gain_data p.addr]
      exact hs.load_afterCalls h k (h.integerAt_data hl)
    · intro hp hne
      rw [← gain_link hl hp hne]
      exact hs.load_afterCalls h k (h.integerAt_link hl hp)

def spaced : Memory :=
  (LinkedRecord.store .empty 64 ⟨1, ⟨2, 3, .zero, .one⟩, .ofAddr 72, .ofAddr 256⟩).write 256
    [0x61, 0x20, 0x62]

theorem mutate_repeated_closed_form_spaced :
    let m' := afterCalls (.ofAddr 64) 2 spaced
    spaced.NamesString (.ofAddr 256) [0x61, 0x20, 0x62] ∧
      Detached 64 (.ofAddr 72) (.ofAddr 256) 3 ∧ LinkPlaced 64 (.ofAddr 72) ∧
      m'.byte 256 = 0x21 ∧ m'.byte 257 = 0 ∧ m'.byte 258 = 0x42 ∧ m'.byte 259 = 0 ∧
      (m'.stringAt (.ofAddr 256)).length ≤ 1 ∧
      (load m' 64).id = 21 ∧ (load m' 64).data.int = 62 := by
  have hrecord : load spaced 64 = ⟨1, ⟨2, 3, .zero, .one⟩, .ofAddr 72, .ofAddr 256⟩ := by
    decide +kernel
  have htext : spaced.NamesString (.ofAddr 256) [0x61, 0x20, 0x62] := by
    refine .stored (by decide +kernel) ⟨?_, ?_, ?_⟩ ?_ <;> decide +kernel
  have hdetached : Detached 64 (.ofAddr 72) (.ofAddr 256) 3 := by
    refine ⟨?_, ?_, ?_⟩ <;> apply Region.disjoint_of_apart <;> decide +kernel
  have hplaced : LinkPlaced 64 (.ofAddr 72) := Or.inl rfl
  have hbase : load spaced (Pointer.ofAddr 64).addr = load spaced 64 := rfl
  have hclosed := mutate_repeated_closed_form (p := .ofAddr 64)
    (by rw [hbase, hrecord]; exact htext) (by rw [hbase, hrecord]; exact hdetached) 2
  rw [hbase, hrecord] at hclosed
  obtain ⟨hbytes, -, hend, hstop, -, hintegers⟩ := hclosed
  obtain ⟨hid, hdata, -⟩ := hintegers hplaced
  refine ⟨htext, hdetached, hplaced, ?_, ?_, ?_, hend (by decide),
    hstop 1 (by decide) (by decide) (by decide), hid.trans (by decide), hdata.trans (by decide)⟩
  · exact (hbytes 0 (by decide)).trans (by decide)
  · exact (hbytes 1 (by decide)).trans (by decide)
  · exact (hbytes 2 (by decide)).trans (by decide)

end LinkedRecord

end AbiConformance
