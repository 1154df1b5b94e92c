import AbiConformance.Proofs.Heap.Accounting
import AbiConformance.Proofs.Heap.Contents
import AbiConformance.Proofs.Record.Mutation

namespace AbiConformance

open Memory

theorem toInt_clampLength (n : Nat) : (clampLength n).toInt = (min n (2 ^ 31 - 1) : Nat) :=
  Int32.toInt_ofNat_of_lt (by omega)

namespace Memory

variable {m m' : Memory} {p : Pointer} {bs : List UInt8}

theorem NamesString.stringSpan_eq (h : m.NamesString p bs) :
    m.stringSpan p = p.span (bs.length + 1) := by
  cases h with
  | null hp => rw [stringSpan, Pointer.span_of_null hp, Pointer.span_of_null hp]
  | stored hp hstring hroom => rw [stringSpan, stringFrom_eq hstring hroom]

theorem NamesString.stringAt_of_agree (h : m.NamesString p bs)
    (hm : Agree (p.span (bs.length + 1)) m m') : m'.stringAt p = bs := by
  rw [← hm.stringAt (h.stringSpan_eq ▸ List.Subset.refl _), h.stringAt_eq]

end Memory

theorem Memory.NamesString.runIn_allocateText {A : Allocator} {s : Arena} {source : Pointer}
    {bs : List UInt8} (h : s.memory.NamesString source bs) :
    (HeapCall.allocateText source).runIn A s =
      .returned (.pointer (Block.supply A s bs).1, (Block.supply A s bs).2) := by
  simp only [HeapCall.runIn, Block.allocateText_eq, h.stringAt_eq]

structure Copyable (A : Allocator) (s : Arena) (live : Region) (source : Pointer)
    (bs : List UInt8) : Prop where
  names : s.memory.NamesString source bs
  held : ∀ i, (source.span (bs.length + 1)).Contains i → live.Contains i
  sound : A.SoundAt s.requests (bs.length + Block.header) Block.header live

theorem string_copy_round_trip {A : Allocator} {s : Arena} {live : Region} {source : Pointer}
    {bs : List UInt8} (h : Copyable A s live source bs) :
    let n := bs.length
    (∃ k : Int32, (Call.textLength source).run s.memory = (.int32 k, s.memory) ∧
      k.toInt = (min n (2 ^ 31 - 1) : Nat)) ∧
    ∃ p s', (HeapCall.allocateText source).runIn A s = .returned (.pointer p, s') ∧
      (p.isNull = false ↔ Block.layout? n = some (n + Block.header) ∧
        (A s.requests (n + Block.header) Block.header).isSome = true) ∧
      (p.isNull = false →
        let block : Region := [⟨Block.base p, n + Block.header⟩]
        let payload : Region := [⟨p.addr, n⟩]
        p.addr = Block.base p + Block.header ∧ block.Disjoint live ∧
        (∀ i, ¬block.Contains i → s'.memory.byte i = s.memory.byte i) ∧
        (∀ m, Rewrites live s'.memory m → m.read p.addr n = bs) ∧
        (∀ m, Rewrites payload s'.memory m → Agree live s.memory m ∧ m.stringAt source = bs) ∧
        n < addressSpace ∧
        (∀ m, Rewrites (live ++ payload) s'.memory m →
          (Call.blockSize p).run m = (.size (.ofNat n), m)) ∧
        ∀ t : Arena, Rewrites (live ++ payload) s'.memory t.memory →
          t.outstanding = s'.outstanding →
          ∃ t', (HeapCall.release p).runIn A t = .returned (.nothing, t') ∧
            t'.outstanding = s.outstanding ∧
            ∀ i, ¬block.Contains i → t'.memory.byte i = t.memory.byte i) := by
  refine ⟨⟨_, rfl, by rw [h.names.stringAt_eq, toInt_clampLength]⟩, _, _,
    h.names.runIn_allocateText, Block.isNull_supply h.sound, ?_⟩
  intro hp
  have hcopy := Block.supply_supplied h.sound hp
  refine ⟨hcopy.addr, hcopy.apart, hcopy.frame, fun m hm => hcopy.read_rewritten hm, ?_,
    hcopy.lt, ?_, ?_⟩
  · intro m hm
    have hlive := hcopy.live_rewritten hm
    exact ⟨hlive, h.names.stringAt_of_agree fun i hi => hlive i (h.held i hi)⟩
  · intro m hm
    simp only [Call.run, Block.payloadOrZero, hp, Bool.false_eq_true, if_false,
      hcopy.payload_rewritten hm]
  · intro t hm ht
    refine ⟨_, rfl, hcopy.outstanding_release hm ht, fun i _ => ?_⟩
    rw [Block.release_memory]

def straddling : Memory := Memory.empty.storeArray 64 [(0x41FFC861 : Int32), 0x42]

theorem copyable_straddling : Copyable stretches (.ofMemory straddling) [⟨64, 8⟩] (.ofAddr 65)
    [0xC8, 0xFF, 0x41, 0x42] where
  names := .stored rfl ⟨by decide +kernel, by simp, by decide +kernel⟩ (by decide)
  held := by
    intro i hi
    rw [Pointer.span_of_not_null rfl, Region.contains_singleton] at hi
    rw [Region.contains_singleton]
    exact ⟨Nat.le_of_succ_le hi.1, Nat.lt_of_lt_of_le hi.2 (by decide)⟩
  sound := by
    rintro a ⟨⟩
    exact ⟨by decide, by decide, Region.disjoint_of_apart (by decide)⟩

theorem string_copy_round_trip_straddling :
    let s := Arena.ofMemory straddling
    let bs : List UInt8 := [0xC8, 0xFF, 0x41, 0x42]
    Copyable stretches s [⟨64, 8⟩] (.ofAddr 65) bs ∧
      (Call.textLength (.ofAddr 65)).run s.memory = (.int32 4, s.memory) ∧
      ∃ p s', (HeapCall.allocateText (.ofAddr 65)).runIn stretches s =
          .returned (.pointer p, s') ∧ p.isNull = false ∧
        (s'.memory.write 64 [0, 0]).read p.addr 4 = bs ∧
        (s'.memory.write p.addr [0, 0]).stringAt (.ofAddr 65) = bs ∧
        (Call.blockSize p).run s'.memory = (.size 4, s'.memory) ∧
        ∃ t', (HeapCall.release p).runIn stretches s' = .returned (.nothing, t') ∧
          t'.outstanding = s.outstanding := by
  obtain ⟨⟨k, hlength, hk⟩, p, s', hrun, hnull, hcopy⟩ :=
    string_copy_round_trip copyable_straddling
  obtain rfl : k = 4 := Int32.toInt_inj.mp (hk.trans rfl)
  have hp := hnull.mpr ⟨rfl, rfl⟩
  obtain ⟨-, -, -, hkept, hsource, -, hsize, hrelease⟩ := hcopy hp
  obtain ⟨t', hreleased, hcount, -⟩ := hrelease s' .refl rfl
  refine ⟨copyable_straddling, hlength, p, s', hrun, hp, hkept _ (.write .refl ?_),
    (hsource _ (.write .refl ?_)).2, hsize _ .refl, t', hreleased, hcount⟩
  · intro i hi
    rw [Region.contains_singleton] at hi ⊢
    exact ⟨hi.1, Nat.lt_of_lt_of_le hi.2 (by decide)⟩
  · intro i hi
    rw [Region.contains_singleton] at hi ⊢
    exact ⟨hi.1, Nat.lt_of_lt_of_le hi.2 (Nat.add_le_add_left (by decide) _)⟩

end AbiConformance
