import AbiConformance.Proofs.Heap.Custody

namespace AbiConformance

open Memory

namespace Holdings

variable {h : Holdings} {p d : Pointer} {n : Nat}

theorem bytes_addBlock : (h.addBlock p n).bytes = h.bytes + (n + Block.header) := by
  simp only [bytes, addBlock, List.map_cons, List.sum_cons]
  omega

theorem bytes_addRecord :
    (h.addRecord p d).bytes = h.bytes + (CounterRecord.size + CounterRecord.targetSize) := by
  simp only [bytes, addRecord, List.length_cons, CounterRecord.size, CounterRecord.targetSize]
  omega

theorem exists_dropBlock (hp : (p, n) ∈ h.blocks) :
    ∃ n, (p, n) ∈ h.blocks ∧ h.bytes = (h.dropBlock p).bytes + (n + Block.header) := by
  obtain ⟨⟨q, k⟩, front, rest, -, hq, hsplit, herase⟩ :=
    List.exists_of_eraseP (p := fun b : Pointer × Nat => b.1 = p) hp (by simp)
  obtain rfl : q = p := by simpa using hq
  refine ⟨k, by simp [hsplit], ?_⟩
  simp only [bytes, dropBlock, herase]
  rw [hsplit]
  simp only [List.map_append, List.map_cons, List.sum_append, List.sum_cons]
  omega

theorem bytes_dropRecord_of_null (hp : p ∈ h.records) (hd : d.isNull = true) :
    h.bytes = (h.dropRecord p d).bytes + CounterRecord.size := by
  have hlen := List.length_erase_of_mem hp
  have hpos := List.length_pos_of_mem hp
  simp only [bytes, dropRecord, hd, if_true, CounterRecord.size, hlen]
  omega

theorem bytes_dropRecord (hp : p ∈ h.records) (hd : d.isNull = false) (hmem : d ∈ h.targets) :
    h.bytes = (h.dropRecord p d).bytes + (CounterRecord.size + CounterRecord.targetSize) := by
  have hlen := List.length_erase_of_mem hp
  have hpos := List.length_pos_of_mem hp
  have hlen' := List.length_erase_of_mem hmem
  have hpos' := List.length_pos_of_mem hmem
  simp only [bytes, dropRecord, hd, Bool.false_eq_true, if_false, CounterRecord.size,
    CounterRecord.targetSize, hlen, hlen']
  omega

theorem extents_of_headers {i : Nat} (hi : h.headers.Contains i) : h.extents.Contains i := by
  obtain ⟨s, hs, hsi⟩ := hi
  obtain ⟨b, hb, rfl⟩ := List.mem_map.mp hs
  refine Region.contains_append.mpr (Or.inl (Region.contains_append.mpr (Or.inl ?_)))
  refine ⟨_, List.mem_map_of_mem hb, ?_⟩
  simp only [Span.Contains, Block.header] at hsi ⊢
  omega

theorem extents_of_links {i : Nat} (hi : h.links.Contains i) : h.extents.Contains i := by
  obtain ⟨s, hs, hsi⟩ := hi
  obtain ⟨q, hq, rfl⟩ := List.mem_map.mp hs
  refine Region.contains_append.mpr (Or.inl (Region.contains_append.mpr (Or.inr ?_)))
  refine ⟨_, List.mem_map_of_mem hq, ?_⟩
  simp only [Span.Contains, CounterRecord.size] at hsi ⊢
  omega

end Holdings

theorem counted_add {start x : Int64} {b c : Nat} (h : x = start + Int64.ofNat b) :
    x + Int64.ofNat c = start + Int64.ofNat (b + c) := by
  rw [h, Int64.ofNat_add, Int64.add_assoc]

theorem counted_sub {start x : Int64} {b c : Nat} (h : x = start + Int64.ofNat (b + c)) :
    x - Int64.ofNat c = start + Int64.ofNat b := by
  rw [h, Int64.ofNat_add, ← Int64.add_assoc, Int64.add_sub_cancel]

structure Recorded (m : Memory) (b : Pointer × Nat) : Prop where
  notNull : b.1.isNull = false
  layout : Block.layout? b.2 = some (b.2 + Block.header)
  payload : Block.payload m b.1 = UInt64.ofNat b.2

theorem Recorded.lt {m : Memory} {b : Pointer × Nat} (h : Recorded m b) : b.2 < addressSpace := by
  have hmax := (Block.layout?_eq_some h.layout).2
  rw [addressSpace]
  omega

structure Accounts (start : Int64) (k : Custody) : Prop where
  outstanding : k.arena.outstanding = start + Int64.ofNat k.held.bytes
  blocks : ∀ b ∈ k.held.blocks, Recorded k.arena.memory b
  records : ∀ p ∈ k.held.records, p.isNull = false

namespace Accounts

variable {start : Int64} {k k' : Custody}

theorem recorded {m : Memory} (h : Accounts start k)
    (hm : Agree k.held.headers k.arena.memory m) : ∀ b ∈ k.held.blocks, Recorded m b := by
  intro b hb
  obtain ⟨hnull, hlayout, hpayload⟩ := h.blocks b hb
  refine ⟨hnull, hlayout, ?_⟩
  have hmem : ⟨Block.base b.1, 8⟩ ∈ k.held.headers := List.mem_map.mpr ⟨b, hb, rfl⟩
  rw [← hpayload]
  exact hm.symm.load hmem rfl

theorem effect {writes : Region} (h : Accounts start k) (hw : writes.Disjoint k.held.headers)
    (he : Effect k writes k') : Accounts start k' := by
  cases he with
  | quiet houtstanding hframe =>
    exact ⟨houtstanding.trans h.outstanding, h.recorded (.of_frame hw hframe), h.records⟩
  | block hfresh =>
    have hagree := Agree.of_frame (hfresh.apart.mono_right Holdings.extents_of_headers) hfresh.frame
    refine ⟨?_, ?_, h.records⟩
    · rw [hfresh.outstanding, Holdings.bytes_addBlock]
      exact counted_add h.outstanding
    · intro b hb
      rcases List.mem_cons.mp hb with rfl | hb
      · exact ⟨hfresh.notNull, hfresh.layout, hfresh.payload⟩
      · exact h.recorded hagree b hb
  | record hfresh =>
    have hagree := Agree.of_frame (hfresh.apart.mono_right Holdings.extents_of_headers) hfresh.frame
    refine ⟨?_, h.recorded hagree, ?_⟩
    · rw [hfresh.outstanding, Holdings.bytes_addRecord]
      exact counted_add h.outstanding
    · intro p hp
      rcases List.mem_cons.mp hp with rfl | hp
      · exact hfresh.notNull
      · exact h.records p hp
  | release hmem =>
    obtain ⟨n, hn, hbytes⟩ := Holdings.exists_dropBlock hmem
    obtain ⟨hnull, hlayout, hpayload⟩ := h.blocks _ hn
    refine ⟨?_, ?_, h.records⟩
    · rw [Block.release_of_layout hnull hpayload hlayout]
      exact counted_sub (hbytes ▸ h.outstanding)
    · intro b hb
      rw [Block.release_memory]
      exact h.blocks b (List.mem_of_mem_eraseP hb)
  | @free p hp hd =>
    have hnull := h.records p hp
    have hrecorded : ∀ b ∈ k.held.blocks, Recorded (CounterRecord.free k.arena p).memory b := by
      rw [CounterRecord.free_memory]
      exact h.blocks
    refine ⟨?_, hrecorded, fun q hq => h.records q (List.mem_of_mem_erase hq)⟩
    cases hd' : (CounterRecord.targetOf k.arena.memory p).isNull with
    | true =>
      rw [CounterRecord.free_of_null_target hnull hd']
      exact counted_sub (Holdings.bytes_dropRecord_of_null hp hd' ▸ h.outstanding)
    | false =>
      have hmem := hd.resolve_left (Bool.eq_false_iff.mp hd')
      rw [CounterRecord.free_of_target hnull hd']
      exact counted_sub (Holdings.bytes_dropRecord hp hd' hmem ▸ h.outstanding)

theorem start_empty (s : Arena) : Accounts s.outstanding ⟨s, .empty⟩ :=
  ⟨(Int64.add_zero _).symm, fun _ h => absurd h List.not_mem_nil,
    fun _ h => absurd h List.not_mem_nil⟩

theorem of_reaches {A : Allocator} (h : Accounts start k)
    (hr : Reaches A (fun k x => x.InContract A k) k k') : Accounts start k' := by
  induction hr with
  | refl => exact h
  | step _ hx hrun ih => exact ih.effect hx.spares (Action.run_effect hx hrun)

end Accounts

structure Paired (k : Custody) : Prop where
  aimed : ∀ p ∈ k.held.records, (CounterRecord.targetOf k.arena.memory p).isNull = false
  perm : k.held.targets.Perm (k.held.records.map (CounterRecord.targetOf k.arena.memory))

namespace Paired

variable {k k' : Custody}

theorem targetOf_eq {m : Memory} (hm : Agree k.held.links k.arena.memory m) :
    ∀ p ∈ k.held.records, CounterRecord.targetOf m p = CounterRecord.targetOf k.arena.memory p := by
  intro p hp
  have hmem : ⟨p.addr + 24, 8⟩ ∈ k.held.links := List.mem_map.mpr ⟨p, hp, rfl⟩
  exact hm.symm.load hmem rfl

theorem of_agree {s : Arena} {h : Holdings} (hk : Paired k)
    (hm : Agree k.held.links k.arena.memory s.memory) (hrecords : h.records = k.held.records)
    (htargets : h.targets = k.held.targets) : Paired ⟨s, h⟩ := by
  have heq := targetOf_eq hm
  constructor
  · intro p hp
    rw [hrecords] at hp
    simp only
    rw [heq p hp]
    exact hk.aimed p hp
  · simp only [hrecords, htargets]
    rw [List.map_congr_left heq]
    exact hk.perm

theorem effect {writes : Region} (h : Paired k) (hw : writes.Disjoint k.held.links)
    (he : Effect k writes k') : Paired k' := by
  cases he with
  | quiet _ hframe => exact h.of_agree (.of_frame hw hframe) rfl rfl
  | block hfresh =>
    have hagree := Agree.of_frame (hfresh.apart.mono_right Holdings.extents_of_links) hfresh.frame
    exact h.of_agree hagree rfl rfl
  | record hfresh =>
    have hagree := Agree.of_frame (hfresh.apart.mono_right Holdings.extents_of_links) hfresh.frame
    have hold := h.of_agree hagree rfl rfl
    constructor
    · intro p hp
      rcases List.mem_cons.mp hp with rfl | hp
      · exact hfresh.aimed
      · exact hold.aimed p hp
    · exact hold.perm.cons _
  | release _ =>
    refine h.of_agree ?_ rfl rfl
    rw [Block.release_memory]
    exact .refl _ _
  | @free p hp _ =>
    have haimed := h.aimed p hp
    have hold : ∀ q ∈ k.held.records.erase p,
        (CounterRecord.targetOf k.arena.memory q).isNull = false :=
      fun q hq => h.aimed q (List.mem_of_mem_erase hq)
    have hperm : (k.held.targets.erase (CounterRecord.targetOf k.arena.memory p)).Perm
        ((k.held.records.erase p).map (CounterRecord.targetOf k.arena.memory)) := by
      have hfront := (List.perm_cons_erase hp).map (CounterRecord.targetOf k.arena.memory)
      have herase := (h.perm.trans hfront).erase (CounterRecord.targetOf k.arena.memory p)
      rwa [List.map_cons, List.erase_cons_head] at herase
    constructor
    · rw [CounterRecord.free_memory]
      exact hold
    · rw [CounterRecord.free_memory]
      simpa only [Holdings.dropRecord, haimed, Bool.false_eq_true, if_false] using hperm

theorem start_empty (s : Arena) : Paired ⟨s, .empty⟩ :=
  ⟨fun _ h => absurd h List.not_mem_nil, .refl _⟩

theorem of_reaches {A : Allocator} (h : Paired k)
    (hr : Reaches A (fun k x => x.InContract A k ∧ x.KeepsLinks k) k k') : Paired k' := by
  induction hr with
  | refl => exact h
  | step _ hx hrun ih => exact ih.effect hx.2 (Action.run_effect hx.1 hrun)

theorem bytes_eq_zero (h : Paired k) (hblocks : k.held.blocks = [])
    (hrecords : k.held.records = []) : k.held.bytes = 0 := by
  have hperm := h.perm
  rw [hrecords, List.map_nil, List.perm_nil] at hperm
  simp [Holdings.bytes, hblocks, hrecords, hperm]

end Paired

theorem outstanding_accounts_for_holdings (A : Allocator) (s : Arena) :
    (∀ k, Reaches A (fun k x => x.InContract A k) ⟨s, .empty⟩ k →
      k.arena.outstanding - s.outstanding = Int64.ofNat k.held.bytes ∧
      (k.held.bytes < 2 ^ 63 → (k.arena.outstanding - s.outstanding).toInt = k.held.bytes) ∧
      ∀ b ∈ k.held.blocks, b.2 < addressSpace ∧
        (Call.blockSize b.1).run k.arena.memory = (.size (.ofNat b.2), k.arena.memory)) ∧
    (∀ (t t' : Arena) (c : EntryCall) (v : Value), c.transfers = false →
      c.run A t = .returned (v, t') → t'.outstanding = t.outstanding) ∧
    (∀ k, Reaches A (fun k x => x.InContract A k ∧ x.KeepsLinks k) ⟨s, .empty⟩ k →
      k.held.blocks = [] → k.held.records = [] → k.arena.outstanding = s.outstanding) ∧
    ∀ k p, Reaches A (fun k x => x.InContract A k) ⟨s, .empty⟩ k → p ∈ k.held.records →
      (CounterRecord.targetOf k.arena.memory p).isNull = true →
      ∃ k', (Action.call (.heap (.freeCounter p))).run A k = .returned (.nothing, k') ∧
        k'.arena.outstanding = k.arena.outstanding - 32 ∧ k'.held.targets = k.held.targets := by
  have hstart := Accounts.start_empty s
  refine ⟨?_, ?_, ?_, ?_⟩
  · intro k hk
    have h := hstart.of_reaches hk
    have hdiff : k.arena.outstanding - s.outstanding = Int64.ofNat k.held.bytes := by
      rw [h.outstanding, Int64.add_comm, Int64.add_sub_cancel]
    refine ⟨hdiff, ?_, ?_⟩
    · intro hlt
      rw [hdiff, Int64.toInt_ofNat_of_lt hlt]
    · intro b hb
      have hrecorded := h.blocks b hb
      refine ⟨hrecorded.lt, ?_⟩
      simp only [Call.run, Block.payloadOrZero, hrecorded.notNull, hrecorded.payload,
        Bool.false_eq_true, if_false]
  · intro t t' c v hc hr
    exact EntryCall.outstanding_of_not_transfers hc hr
  · intro k hk hblocks hrecords
    have h := hstart.of_reaches (hk.mono fun _ _ hx => hx.1)
    have hpaired := (Paired.start_empty s).of_reaches hk
    rw [h.outstanding, hpaired.bytes_eq_zero hblocks hrecords]
    exact Int64.add_zero _
  · intro k p hk hp hd
    have hnull := (hstart.of_reaches hk).records p hp
    refine ⟨_, rfl, CounterRecord.free_of_null_target hnull hd, ?_⟩
    simp only [Holdings.after, hnull, Holdings.dropRecord, hd, Bool.false_eq_true, if_false,
      if_true]

def stretches : Allocator := fun request _ _ => some (4096 + 64 * request)

def beginning : Custody := ⟨.ofMemory .empty, .empty⟩

theorem exists_null_link : ∃ k,
    Reaches stretches (fun k x => x.InContract stretches k) beginning k ∧
      k.held = ⟨[], [.ofAddr 4160], [.ofAddr 4096]⟩ ∧
      (CounterRecord.targetOf k.arena.memory (.ofAddr 4160)).isNull = true := by
  have hallocate : (Action.call (.heap .allocateCounter)).InContract stretches beginning := by
    refine .heap ⟨?_, ?_⟩
    · rintro a ⟨⟩
      exact ⟨by decide, by decide, Region.disjoint_of_apart (by decide)⟩
    · rintro d ⟨⟩ a ⟨⟩
      exact ⟨by decide, by decide, Region.disjoint_of_apart (by decide)⟩
  refine ⟨_, .step (.step .refl hallocate rfl) (x := .write 4184 (List.replicate 8 0)) ?_ rfl,
    rfl, ?_⟩
  · exact .write (Region.disjoint_of_apart (by decide))
  · decide +kernel

theorem exists_released : ∃ k,
    Reaches stretches (fun k x => x.InContract stretches k ∧ x.KeepsLinks k) beginning k ∧
      k.arena.requests = 1 ∧ k.held = .empty := by
  have hallocate : (Action.call (.heap (.allocateDoubles 2))).InContract stretches beginning := by
    refine .heap ?_
    rintro a ⟨⟩
    exact ⟨by decide, by decide, Region.disjoint_of_apart (by decide)⟩
  refine ⟨_, .step (.step .refl ⟨hallocate, ?_⟩ rfl)
    (x := .call (.heap (.release (.ofAddr 4112)))) ⟨.heap (Or.inr ⟨16, ?_⟩), ?_⟩ rfl, ?_, ?_⟩
  · exact Region.disjoint_of_apart (by decide)
  · decide +kernel
  · exact Region.disjoint_of_apart (by decide)
  · rfl
  · rfl

theorem outstanding_accounts_for_holdings_stretches :
    (∃ k k', Reaches stretches (fun k x => x.InContract stretches k) beginning k ∧
      k.arena.outstanding - beginning.arena.outstanding = 36 ∧
      (Action.call (.heap (.freeCounter (.ofAddr 4160)))).run stretches k =
        .returned (.nothing, k') ∧
      k'.arena.outstanding = k.arena.outstanding - 32 ∧ k'.held.targets = [.ofAddr 4096]) ∧
    (∃ k, Reaches stretches (fun k x => x.InContract stretches k ∧ x.KeepsLinks k) beginning k ∧
      k.arena.requests = 1 ∧ k.held = .empty ∧
      k.arena.outstanding = beginning.arena.outstanding) ∧
    ∃ t v, (EntryCall.plain (.sumMatrixRows .int8 1 1 (.ofAddr 8))).run stretches
        beginning.arena = .returned (v, t) ∧
      t.requests = 1 ∧ t.outstanding = beginning.arena.outstanding := by
  have h := outstanding_accounts_for_holdings stretches beginning.arena
  refine ⟨?_, ?_, ?_⟩
  · obtain ⟨k, hk, hheld, hnull⟩ := exists_null_link
    have hmem : Pointer.ofAddr 4160 ∈ k.held.records := by simp [hheld]
    obtain ⟨k', hrun, hout, htargets⟩ := h.2.2.2 k _ hk hmem hnull
    refine ⟨k, k', hk, (h.1 k hk).1.trans ?_, hrun, hout, htargets.trans ?_⟩
    · rw [hheld]
      rfl
    · rw [hheld]
  · obtain ⟨k, hk, hrequests, hheld⟩ := exists_released
    exact ⟨k, hk, hrequests, hheld, h.2.2.1 k hk (by rw [hheld]; rfl) (by rw [hheld]; rfl)⟩
  · exact ⟨_, _, rfl, rfl, h.2.1 _ _ (.plain (.sumMatrixRows .int8 1 1 (.ofAddr 8))) _ rfl rfl⟩

end AbiConformance
