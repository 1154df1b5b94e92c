import AbiConformance.Proofs.Record.Description

namespace AbiConformance

namespace Memory

inductive Update where
  | lower (a n : Nat)
  | raise (a : Nat) (k : Int32)

def Update.Leads (m m' : Memory) : Update → Prop
  | lower a n => ∀ i, m'.byte i = if Span.Contains ⟨a, n⟩ i then m.byte i - 32 else m.byte i
  | raise a k => m'.load Int32 a = m.load Int32 a + k ∧
      ∀ i, ¬Span.Contains ⟨a, 4⟩ i → m'.byte i = m.byte i

inductive Follows : List Update → Memory → Memory → Prop
  | nil (m : Memory) : Follows [] m m
  | cons {u : Update} {us : List Update} {m m' m'' : Memory} :
      u.Leads m m' → Follows us m' m'' → Follows (u :: us) m m''

theorem eq_of_load_eq {α : Type} [Scalar α] {m m' : Memory} {a : Nat}
    (hword : m.load α a = m'.load α a)
    (hframe : ∀ i, ¬Span.Contains ⟨a, Scalar.width α⟩ i → m.byte i = m'.byte i) : m = m' := by
  apply eq_of_loads_eq (α := α) (n := 1)
  · intro i hi
    obtain rfl : i = 0 := Nat.lt_one_iff.mp hi
    rwa [Nat.zero_mul, Nat.add_zero]
  · rwa [Nat.one_mul]

theorem Update.Leads.unique {u : Update} {m m' m'' : Memory} (h' : u.Leads m m')
    (h'' : u.Leads m m'') : m' = m'' := by
  cases u with
  | lower a n =>
    apply Memory.ext
    funext i
    rw [h' i, h'' i]
  | raise a k =>
    apply eq_of_load_eq (h'.1.trans h''.1.symm)
    intro i hi
    rw [h'.2 i hi, h''.2 i hi]

theorem Follows.unique {us : List Update} {m m' m'' : Memory} (h' : Follows us m m')
    (h'' : Follows us m m'') : m' = m'' := by
  induction h' with
  | nil m =>
    cases h''
    rfl
  | cons hlead _ ih =>
    cases h'' with
    | cons hlead' hrest =>
      obtain rfl := hlead.unique hlead'
      exact ih hrest

end Memory

open Memory

namespace Memory

theorem read_succ (m : Memory) (a n : Nat) : m.read a (n + 1) = m.byte a :: m.read (a + 1) n := by
  rw [Nat.add_comm, read_add]
  rfl

theorem read_scan (m : Memory) (a fuel : Nat) :
    m.read a (m.scan a fuel).length = m.scan a fuel := by
  induction fuel generalizing a with
  | zero => rfl
  | succ fuel ih =>
    rw [scan]
    split
    · rfl
    · rw [List.length_cons, read_succ, ih]

theorem read_stringAt (m : Memory) (p : Pointer) :
    m.read p.addr (m.stringAt p).length = m.stringAt p := by
  cases hp : p.isNull with
  | true => simp [stringAt, hp, read]
  | false =>
    rw [stringAt, hp]
    exact m.read_scan p.addr (addressSpace - p.addr)

inductive NamesString (m : Memory) (p : Pointer) : List UInt8 → Prop
  | null : p.isNull = true → NamesString m p []
  | stored {bs : List UInt8} : p.isNull = false → m.HoldsString p.addr bs →
      p.addr + bs.length < addressSpace → NamesString m p bs

theorem NamesString.stringAt_eq {m : Memory} {p : Pointer} {bs : List UInt8}
    (h : m.NamesString p bs) : m.stringAt p = bs := by
  cases h with
  | null hp => rw [stringAt, if_pos hp]
  | stored hp hstring hroom =>
    rw [stringAt, if_neg (Bool.eq_false_iff.mp hp), stringFrom_eq hstring hroom]

inductive EndsAfter (m : Memory) (p : Pointer) : Nat → Prop
  | null : p.isNull = true → EndsAfter m p 0
  | stored {n : Nat} : p.isNull = false → m.byte (p.addr + n) = 0 → p.addr + n < addressSpace →
      EndsAfter m p n

theorem EndsAfter.byte_end {m : Memory} {p : Pointer} {n : Nat} (h : m.EndsAfter p n)
    (hp : p.isNull = false) : m.byte (p.addr + n) = 0 := by
  cases h with
  | null hnull => exact absurd hnull (Bool.eq_false_iff.mp hp)
  | stored _ hend _ => exact hend

theorem NamesString.endsAfter {m : Memory} {p : Pointer} {bs : List UInt8}
    (h : m.NamesString p bs) : m.EndsAfter p bs.length := by
  cases h with
  | null hp => exact .null hp
  | stored hp hstring hroom => exact .stored hp hstring.2.2 hroom

end Memory

namespace LinkedRecord

theorem leads_raise (m : Memory) (a : Nat) (k : Int32) :
    (Update.raise a k).Leads m (raise m a k) := by
  refine ⟨load_modify m a _, ?_⟩
  intro i hi
  apply byte_store_of_not_mem
  simp only [Span.Contains, Scalar.width_int32] at hi ⊢
  omega

theorem leads_shiftText (m : Memory) (text : Pointer) :
    (Update.lower text.addr (m.stringAt text).length).Leads m (shiftText m text) := by
  intro i
  rw [shiftText]
  have hstring := m.read_stringAt text
  by_cases hi : Span.Contains ⟨text.addr, (m.stringAt text).length⟩ i
  · rw [if_pos hi]
    obtain ⟨j, rfl⟩ := Nat.exists_eq_add_of_le hi.1
    have hj : j < (m.stringAt text).length := Nat.lt_of_add_lt_add_left hi.2
    have hget : (m.stringAt text)[j] = m.byte (text.addr + j) := by
      simp only [← getElem_read (n := (m.stringAt text).length) (by simpa using hj), hstring]
    rw [byte_write_add (by simpa using hj), ← hget]
    simp only [shiftToUpper, List.getElem_map, upperCaseOffset]
  · rw [if_neg hi]
    apply byte_write_of_not_mem
    simp only [Span.Contains] at hi
    rw [length_shiftToUpper]
    omega

def updates (base : Nat) (r : LinkedRecord) (n : Nat) : List Update :=
  .lower r.text.addr n :: .raise base 10 :: .raise (base + 8) 10 ::
    if r.link.isNull then [] else [.raise r.link.addr 20]

theorem follows_updates (m : Memory) (base : Nat) :
    Follows (updates base (load m base) (m.stringAt (load m base).text).length) m
      (mutate m base).2 := by
  refine .cons (leads_shiftText m _) (.cons (leads_raise _ base 10)
    (.cons (leads_raise _ (base + 8) 10) ?_))
  rw [mutate_snd, raiseLink]
  split
  · exact .nil _
  · exact .cons (leads_raise _ _ 20) (.nil _)

theorem follows_updates_iff {m m' : Memory} {base : Nat} :
    Follows (updates base (load m base) (m.stringAt (load m base).text).length) m m' ↔
      m' = (mutate m base).2 := by
  constructor
  · exact fun h => h.unique (follows_updates m base)
  · intro h
    rw [h]
    exact follows_updates m base

theorem pointers_mutate {m : Memory} {base : Nat}
    (hlink : ((load m base).link.span 4).Disjoint [⟨base + 40, 16⟩])
    (htext : (textSpan m (load m base).text).Disjoint [⟨base + 40, 16⟩]) :
    (load (mutate m base).2 base).link = (load m base).link ∧
      (load (mutate m base).2 base).text = (load m base).text := by
  have hapart : (mutateWrites m base).Disjoint [⟨base + 40, 8⟩, ⟨base + 48, 8⟩] := by
    intro i hi hp
    have hp' : Region.Contains [⟨base + 40, 16⟩] i := by
      simp only [Region.contains_cons, Region.not_contains_nil, or_false, Span.Contains] at hp ⊢
      omega
    rw [mutateWrites, Region.contains_append, Region.contains_append] at hi
    rcases hi with (hcounter | hi) | hi
    · rw [Region.contains_singleton] at hp'
      simp only [Region.contains_cons, Region.not_contains_nil, or_false, Span.Contains] at hcounter
      omega
    · exact hlink i hi hp'
    · exact htext i hi hp'
  have hagree : Agree [⟨base + 40, 8⟩, ⟨base + 48, 8⟩] m (mutate m base).2 :=
    Agree.of_frame hapart fun _ hi => byte_mutate_of_not_contains hi
  have hlink' : m.load Pointer (base + 40) = (mutate m base).2.load Pointer (base + 40) :=
    hagree.load List.mem_cons_self rfl
  have htext' : m.load Pointer (base + 48) = (mutate m base).2.load Pointer (base + 48) :=
    hagree.load (List.mem_cons_of_mem _ List.mem_cons_self) rfl
  simp only [load, hlink', htext', and_self]

theorem run_mutateLinked (m : Memory) (p : Pointer) :
    (Call.mutateLinked p).run m =
      (.binary64 (total m (load m p.addr)), (mutate m p.addr).2) := by
  simp only [Call.run, mutate, Prod.map, id_eq]

theorem run_total {m : Memory} {a : Nat} (h : a < addressSpace) :
    (Call.total (.ofAddr a)).run m = (.binary64 (NumericRecord.load m a).total, m) := by
  simp only [Call.run, Pointer.addr_ofAddr h]

def counters (base : Nat) (r : LinkedRecord) : Region :=
  [⟨base, 4⟩, ⟨base + 8, 4⟩] ++ r.link.span 4

structure Borrows (m : Memory) (p : Pointer) (bs : List UInt8) : Prop where
  room : p.addr + size ≤ addressSpace
  text : m.NamesString (load m p.addr).text bs
  link_clear : ((load m p.addr).link.span 4).Disjoint [⟨p.addr + 40, 16⟩]
  text_clear : ((load m p.addr).text.span bs.length).Disjoint [⟨p.addr + 40, 16⟩]

theorem mutate_totals_then_updates {m : Memory} {p : Pointer} {bs : List UInt8}
    (h : Borrows m p bs) :
    let r := load m p.addr
    let result := (Call.mutateLinked p).run m
    (∃ x, (Call.total (.ofAddr (p.addr + 8))).run m = (.binary64 x, m) ∧
        (r.link.isNull = true → result.1 = .binary64 x) ∧
        (r.link.isNull = false → ∃ y, (Call.total r.link).run m = (.binary64 y, m) ∧
          result.1 = .binary64 (x + y))) ∧
      (∀ m', Follows (r.updates p.addr bs.length) m m' ↔ m' = result.2) ∧
      (∀ i, ¬(counters p.addr r ++ r.text.span bs.length).Contains i →
        result.2.byte i = m.byte i) ∧
      (r.text.isNull = false → ¬(counters p.addr r).Contains (r.text.addr + bs.length) →
        result.2.byte (r.text.addr + bs.length) = 0) ∧
      (load result.2 p.addr).link = r.link ∧ (load result.2 p.addr).text = r.text := by
  have hroom : p.addr + 8 < addressSpace := by
    have := h.room
    simp only [size] at this
    omega
  have hstring := h.text.stringAt_eq
  have hwrites : mutateWrites m p.addr =
      counters p.addr (load m p.addr) ++ (load m p.addr).text.span bs.length := by
    rw [mutateWrites, textSpan, hstring, counters]
  have hframe : ∀ i, ¬(counters p.addr (load m p.addr) ++
      (load m p.addr).text.span bs.length).Contains i →
      (mutate m p.addr).2.byte i = m.byte i := by
    intro i hi
    rw [← hwrites] at hi
    exact byte_mutate_of_not_contains hi
  simp only [run_mutateLinked]
  refine ⟨⟨_, run_total hroom, ?_, ?_⟩, ?_, hframe, ?_, ?_⟩
  · intro hlink
    rw [total, if_pos hlink]
    simp only [load]
  · intro hlink
    refine ⟨_, rfl, ?_⟩
    rw [total, if_neg (Bool.eq_false_iff.mp hlink)]
    simp only [load]
  · intro m'
    rw [← follows_updates_iff, hstring]
  · intro hp hend
    rw [hframe, h.text.endsAfter.byte_end hp]
    rw [Region.contains_append, not_or, Pointer.span_of_not_null hp,
      Region.not_contains_singleton]
    exact ⟨hend, Or.inr (Nat.le_refl _)⟩
  · apply pointers_mutate h.link_clear
    rw [textSpan, hstring]
    exact h.text_clear

def entangled : Memory :=
  LinkedRecord.store .empty 64 ⟨0, ⟨0x7A61, 2, .zero, .one⟩, .ofAddr 72, .ofAddr 72⟩

theorem borrows_entangled : Borrows entangled (.ofAddr 64) [0x61, 0x7A] where
  room := by decide
  text := by
    refine .stored (by decide +kernel) ⟨?_, ?_, ?_⟩ ?_ <;> decide +kernel
  link_clear := by
    apply Region.disjoint_of_apart
    decide +kernel
  text_clear := by
    apply Region.disjoint_of_apart
    decide +kernel

theorem mutate_totals_then_updates_entangled :
    let result := (Call.mutateLinked (.ofAddr 64)).run entangled
    Borrows entangled (.ofAddr 64) [0x61, 0x7A] ∧ result.1 = .binary64 (.ofInt 62664) ∧
      Follows [.lower 72 2, .raise 64 10, .raise 72 10, .raise 72 20] entangled result.2 ∧
      (load result.2 64).text = .ofAddr 72 := by
  obtain ⟨⟨x, hx, -, hlinked⟩, hfollows, -, -, -, htext⟩ :=
    mutate_totals_then_updates borrows_entangled
  obtain ⟨y, hy, hsum⟩ := hlinked (by decide +kernel)
  have hdata : x = .ofInt 31332 :=
    (Value.binary64.inj (congrArg Prod.fst hx)).symm.trans (by decide +kernel)
  have hlink : y = .ofInt 31332 :=
    (Value.binary64.inj (congrArg Prod.fst hy)).symm.trans (by decide +kernel)
  rw [hdata, hlink] at hsum
  exact ⟨borrows_entangled, hsum.trans (by decide +kernel), (hfollows _).mpr rfl,
    htext.trans (by decide +kernel)⟩

end LinkedRecord

end AbiConformance
