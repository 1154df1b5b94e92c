import AbiConformance.Proofs.Heap.Refusal

namespace AbiConformance

open Memory

namespace Ledger

variable {κ : Type} [DecidableEq κ] {l : Ledger κ} {b block : κ} {n : Nat}

theorem size?_insert_self (l : Ledger κ) (block : κ) (n : Nat) :
    (l.insert block n).size? block = some n := by
  simp [size?, insert]

theorem size?_insert_of_ne (h : b ≠ block) : (l.insert block n).size? b = l.size? b := by
  have hne : (b == block) = false := beq_false_of_ne h
  simp only [size?, insert, List.lookup_cons, hne]

theorem size?_erase_of_ne (h : b ≠ block) : (l.erase block).size? b = l.size? b := by
  obtain ⟨blocks, counter⟩ := l
  simp only [size?, erase]
  induction blocks with
  | nil => rfl
  | cons x xs ih =>
    by_cases hx : x.1 = block
    · have hne : (b == x.1) = false := beq_false_of_ne (hx ▸ h)
      rw [List.filter_cons_of_neg (by simpa using hx), List.lookup_cons, hne, ih]
    · rw [List.filter_cons_of_pos (by simpa using hx), List.lookup_cons, List.lookup_cons, ih]

end Ledger

namespace Arena

variable {A : Allocator} {s s' : Arena} {size align a b : Nat}

theorem outstanding_withBlock (s : Arena) (a n : Nat) : (s.withBlock a n).outstanding =
    s.outstanding + Ledger.signedSize (n + Block.header) := rfl

theorem size?_request {answer : Option Nat} (h : s.request A size align = (answer, s'))
    (hb : A s.requests size align ≠ some b) : s'.ledger.size? b = s.ledger.size? b := by
  unfold request at h
  split at h
  · cases h
    rfl
  · rename_i a ha
    cases h
    exact Ledger.size?_insert_of_ne fun hab => hb (hab ▸ ha)

theorem size?_free_of_ne (h : b ≠ a) : (s.free a size).ledger.size? b = s.ledger.size? b :=
  Ledger.size?_erase_of_ne h

theorem size?_scratch (h : s.scratch A size align = .returned s')
    (hb : 0 < size → A s.requests size align ≠ some b) :
    s'.ledger.size? b = s.ledger.size? b := by
  unfold scratch at h
  split at h
  · cases h
    rfl
  · rename_i hsize
    have hb := hb (Nat.pos_of_ne_zero hsize)
    split at h
    · cases h
    · rename_i a s₁ hs₁
      have hne : b ≠ a := by
        rintro rfl
        exact hb (request_some hs₁).answer
      have hkept := size?_request hs₁ hb
      cases h
      rw [size?_free_of_ne hne, hkept]

end Arena

theorem Call.size?_runIn {A : Allocator} {s s' : Arena} {c : Call} {v : Value} {b : Nat}
    (h : c.runIn A s = .returned (v, s'))
    (hb : 0 < c.scratchBytes s.memory → A s.requests (c.scratchBytes s.memory) 8 ≠ some b) :
    s'.ledger.size? b = s.ledger.size? b := by
  unfold runIn at h
  simp only at h
  split at h
  · cases h
  · rename_i s₁ hs₁
    have hkept := Arena.size?_scratch hs₁ hb
    cases h
    exact hkept

theorem Block.ledger_fill (s : Arena) (p : Pointer) (bytes : List UInt8) :
    (fill s p bytes).ledger = s.ledger := by
  unfold fill
  split <;> rfl

theorem Block.size?_release {s : Arena} {p : Pointer} {b : Nat} (h : b ≠ base p) :
    (release s p).ledger.size? b = s.ledger.size? b := by
  unfold release
  split
  · rfl
  · dsimp only
    split
    · rfl
    · exact Arena.size?_free_of_ne h

namespace CounterRecord

theorem size?_allocate {A : Allocator} {s s' : Arena} {p : Pointer} {b : Nat}
    (h : allocate A s = .returned (p, s')) (hd : A s.requests targetSize 4 ≠ some b)
    (hr : A (s.requests + 1) size 8 ≠ some b) : s'.ledger.size? b = s.ledger.size? b := by
  unfold allocate at h
  split at h
  · cases h
  · rename_i d s₁ hs₁
    split at h
    · cases h
    · rename_i r s₂ hs₂
      rw [← (Arena.request_some hs₁).requests] at hr
      have hkept := (Arena.size?_request hs₂ hr).trans (Arena.size?_request hs₁ hd)
      cases h
      exact hkept

theorem size?_free {s : Arena} {p : Pointer} {b : Nat} (hp : b ≠ p.addr)
    (hd : (targetOf s.memory p).isNull = true ∨ b ≠ (targetOf s.memory p).addr) :
    (free s p).ledger.size? b = s.ledger.size? b := by
  unfold free
  split
  · rfl
  · dsimp only
    rw [Arena.size?_free_of_ne hp]
    split
    · rfl
    · rename_i hnull
      exact Arena.size?_free_of_ne (hd.resolve_left hnull)

end CounterRecord

namespace Holdings

variable {h : Holdings} {p d : Pointer} {n a : Nat}

def starts (h : Holdings) : List Nat := h.extents.map Span.addr

theorem base_mem_starts {b : Pointer × Nat} (hb : b ∈ h.blocks) : Block.base b.1 ∈ h.starts := by
  simp only [starts, extents, List.map_append, List.map_map, List.mem_append]
  exact Or.inl (Or.inl (List.mem_map.mpr ⟨b, hb, rfl⟩))

theorem extents_of_starts (ha : a ∈ h.starts) : h.extents.Contains a := by
  obtain ⟨x, hx, rfl⟩ := List.mem_map.mp ha
  have hpos : 0 < x.size := by
    simp only [extents, List.mem_append, List.mem_map] at hx
    rcases hx with (⟨b, -, rfl⟩ | ⟨q, -, rfl⟩) | ⟨q, -, rfl⟩
    · exact Nat.add_pos_right b.2 (show 0 < Block.header by decide)
    · exact (show 0 < CounterRecord.size by decide)
    · exact (show 0 < CounterRecord.targetSize by decide)
  exact ⟨x, hx, Nat.le_refl _, Nat.lt_add_of_pos_right hpos⟩

theorem not_mem_starts {size : Nat} (hsize : 0 < size)
    (hapart : Region.Disjoint [⟨a, size⟩] h.extents) : a ∉ h.starts := by
  intro ha
  refine hapart a ?_ (extents_of_starts ha)
  exact Region.contains_singleton.mpr ⟨Nat.le_refl _, Nat.lt_add_of_pos_right hsize⟩

theorem starts_addBlock : (h.addBlock p n).starts = Block.base p :: h.starts := rfl

theorem starts_addRecord : (h.addRecord p d).starts.Perm (p.addr :: d.addr :: h.starts) := by
  have hsplit : (h.addRecord p d).extents = (h.blocks.map fun b =>
      ⟨Block.base b.1, b.2 + Block.header⟩) ++ ⟨p.addr, CounterRecord.size⟩ ::
        ((h.records.map fun p => ⟨p.addr, CounterRecord.size⟩) ++
          ⟨d.addr, CounterRecord.targetSize⟩ ::
            h.targets.map fun d => ⟨d.addr, CounterRecord.targetSize⟩) := by
    simp only [extents, addRecord, List.map_cons, List.append_assoc, List.cons_append]
  have hperm : (h.addRecord p d).extents.Perm
      (⟨p.addr, CounterRecord.size⟩ :: ⟨d.addr, CounterRecord.targetSize⟩ :: h.extents) := by
    rw [hsplit, extents, List.append_assoc]
    refine List.perm_middle.trans (.cons _ ?_)
    exact (List.Perm.append_left _ List.perm_middle).trans List.perm_middle
  exact hperm.map Span.addr

theorem starts_dropBlock : (h.dropBlock p).starts.Sublist h.starts := by
  refine List.Sublist.map _ (List.Sublist.append_right (List.Sublist.append_right ?_ _) _)
  exact List.eraseP_sublist.map _

theorem starts_dropRecord : (h.dropRecord p d).starts.Sublist h.starts := by
  refine List.Sublist.map _ (List.Sublist.append (List.Sublist.append_left ?_ _) ?_)
  · exact List.erase_sublist.map _
  · simp only [dropRecord]
    split
    · exact List.Sublist.refl _
    · exact List.erase_sublist.map _

theorem base_ne_of_dropBlock (hdistinct : h.starts.Nodup) (hp : (p, n) ∈ h.blocks)
    {b : Pointer × Nat} (hb : b ∈ (h.dropBlock p).blocks) : Block.base b.1 ≠ Block.base p := by
  -- A drop takes out the first entry of the pointer; no other entry has its base.
  obtain ⟨front, rest, hsplit, hdrop⟩ := exists_split hp
  have hblocks : (h.blocks.map fun b => Block.base b.1).Nodup := by
    refine List.Nodup.sublist ?_ hdistinct
    simp only [starts, extents, List.map_append, List.map_map, List.append_assoc]
    exact List.sublist_append_left _ _
  rw [hdrop] at hb
  rw [hsplit, List.map_append, List.map_cons, List.nodup_middle, List.nodup_cons,
    ← List.map_append] at hblocks
  intro heq
  exact hblocks.1 (List.mem_map.mpr ⟨b, hb, heq⟩)

theorem base_ne_of_record (hdistinct : h.starts.Nodup) {b : Pointer × Nat} (hb : b ∈ h.blocks)
    (hp : p ∈ h.records ∨ p ∈ h.targets) : Block.base b.1 ≠ p.addr := by
  simp only [starts, extents, List.map_append, List.map_map, List.append_assoc] at hdistinct
  refine (List.nodup_append.mp hdistinct).2.2 _ (List.mem_map.mpr ⟨b, hb, rfl⟩) _ ?_
  rcases hp with hp | hp
  · exact List.mem_append_left _ (List.mem_map.mpr ⟨p, hp, rfl⟩)
  · exact List.mem_append_right _ (List.mem_map.mpr ⟨p, hp, rfl⟩)

end Holdings

structure Listed (k : Custody) : Prop where
  distinct : k.held.starts.Nodup
  sizes : ∀ b ∈ k.held.blocks,
    k.arena.ledger.size? (Block.base b.1) = some (b.2 + Block.header)

def Action.ScratchSound (A : Allocator) (k : Custody) (x : Action) : Prop :=
  ∀ c, x = call (.plain c) →
    A.SoundAt k.arena.requests (c.scratchBytes k.arena.memory) 8 k.held.extents

theorem Allocator.SoundAt.ne_start {A : Allocator} {request size align : Nat} {h : Holdings}
    (hsound : A.SoundAt request size align h.extents) (hsize : 0 < size) {a : Nat}
    (ha : a ∈ h.starts) : A request size align ≠ some a := by
  intro hgrant
  exact Holdings.not_mem_starts hsize (hsound a hgrant).2.2 ha

namespace Listed

variable {A : Allocator} {k k' : Custody} {s : Arena}

theorem start_empty (s : Arena) : Listed ⟨s, .empty⟩ :=
  ⟨List.nodup_nil, fun _ h => absurd h List.not_mem_nil⟩

theorem quiet (h : Listed k)
    (hsame : ∀ a ∈ k.held.starts, s.ledger.size? a = k.arena.ledger.size? a) :
    Listed ⟨s, k.held⟩ where
  distinct := h.distinct
  sizes b hb := (hsame _ (Holdings.base_mem_starts hb)).trans (h.sizes b hb)

theorem supply (h : Listed k) {bytes : List UInt8}
    (hsound : A.SoundAt k.arena.requests (bytes.length + Block.header) Block.header
      k.held.extents) :
    Listed ⟨(Block.supply A k.arena bytes).2,
      if (Block.supply A k.arena bytes).1.isNull then k.held
      else k.held.addBlock (Block.supply A k.arena bytes).1 bytes.length⟩ := by
  by_cases hrefused : Block.Refused A k.arena bytes.length
  · obtain ⟨s, heq, hsame⟩ := Block.supply_of_refused hrefused
    rw [heq]
    exact h.quiet fun a _ => by rw [hsame.ledger]
  · obtain ⟨hlayout, a, ha⟩ := Block.not_refused_iff.mp hrefused
    have hp := Bool.eq_false_iff.mpr ((Block.isNull_supply_iff hsound).not.mpr hrefused)
    have hnew := Holdings.not_mem_starts (Nat.add_pos_right _ (by decide)) (hsound a ha).2.2
    have hbase := Block.base_ofAddr (a := a) (Nat.lt_of_le_of_lt
      (Nat.add_le_add_left (Nat.le_add_left _ _) a) (hsound a ha).2.1)
    rw [Block.supply_of_granted hlayout ha] at hp ⊢
    rw [if_neg (Bool.eq_false_iff.mp hp)]
    constructor
    · rw [Holdings.starts_addBlock, hbase]
      exact List.nodup_cons.mpr ⟨hnew, h.distinct⟩
    · intro b hb
      simp only [Block.ledger_fill]
      rcases List.mem_cons.mp hb with rfl | hb
      · rw [hbase]
        exact Ledger.size?_insert_self _ _ _
      · rw [← h.sizes b hb]
        exact Ledger.size?_insert_of_ne fun heq =>
          hnew (heq ▸ Holdings.base_mem_starts hb)

theorem record (h : Listed k) {p : Pointer}
    (hsound : CounterRecord.SoundAt A k.arena.requests k.held.extents)
    (hr : CounterRecord.allocate A k.arena = .returned (p, s)) :
    Listed ⟨s, k.held.addRecord p (CounterRecord.targetOf s.memory p)⟩ := by
  obtain ⟨d, r, rfl, hplaced⟩ := CounterRecord.allocate_placed hr
  obtain ⟨-, hdend, hdapart⟩ := hsound.1 d hplaced.target
  obtain ⟨-, hrend, hrapart⟩ := hsound.2 d hplaced.target r hplaced.record
  have hrlt : r < addressSpace := by omega
  have hd := Holdings.not_mem_starts (by decide) hdapart
  have hr' := Holdings.not_mem_starts (h := k.held) (by decide)
    (hrapart.mono_right fun hi => Region.contains_cons.mpr (Or.inr hi))
  -- The counter was granted first, so the record has to keep clear of it too.
  have hne : r ≠ d := by
    rintro rfl
    refine hrapart r (Region.contains_singleton.mpr ?_) (Region.contains_cons.mpr (Or.inl ?_))
    · exact ⟨Nat.le_refl _, Nat.lt_add_of_pos_right (by decide)⟩
    · exact ⟨Nat.le_refl r, Nat.lt_add_of_pos_right (show 0 < CounterRecord.targetSize by decide)⟩
  rw [hplaced.targetOf_eq hrlt]
  constructor
  · refine (Holdings.starts_addRecord.nodup_iff).mpr ?_
    rw [Pointer.addr_ofAddr hrlt, Pointer.addr_ofAddr (by omega)]
    refine List.nodup_cons.mpr ⟨?_, List.nodup_cons.mpr ⟨hd, h.distinct⟩⟩
    rw [List.mem_cons, not_or]
    exact ⟨hne, hr'⟩
  · intro b hb
    have hstart := Holdings.base_mem_starts (h := k.held) hb
    refine (CounterRecord.size?_allocate hr ?_ ?_).trans (h.sizes b hb)
    · exact hsound.1.ne_start (by decide) hstart
    · rw [hplaced.record]
      rintro ⟨⟩
      exact hr' hstart

theorem release (h : Listed k) {p : Pointer} {n : Nat} (hp : (p, n) ∈ k.held.blocks)
    (hs : ∀ a, a ≠ Block.base p → s.ledger.size? a = k.arena.ledger.size? a) :
    Listed ⟨s, k.held.dropBlock p⟩ where
  distinct := h.distinct.sublist Holdings.starts_dropBlock
  sizes b hb := (hs _ (Holdings.base_ne_of_dropBlock h.distinct hp hb)).trans
    (h.sizes b (List.mem_of_mem_eraseP hb))

theorem free (h : Listed k) {p : Pointer} (hp : p ∈ k.held.records)
    (hd : (CounterRecord.targetOf k.arena.memory p).isNull = true ∨
      CounterRecord.targetOf k.arena.memory p ∈ k.held.targets) :
    Listed ⟨CounterRecord.free k.arena p,
      k.held.dropRecord p (CounterRecord.targetOf k.arena.memory p)⟩ where
  distinct := h.distinct.sublist Holdings.starts_dropRecord
  sizes b hb := by
    refine (CounterRecord.size?_free ?_ (hd.imp_right ?_)).trans (h.sizes b hb)
    · exact Holdings.base_ne_of_record h.distinct hb (Or.inl hp)
    · intro hd
      exact Holdings.base_ne_of_record h.distinct hb (Or.inr hd)

theorem call (h : Listed k) {c : HeapCall} {v : Value} (hc : c.InContract A k)
    (hr : c.runIn A k.arena = .returned (v, s)) :
    Listed ⟨s, k.held.after k.arena.memory s.memory v.pointerOrNull (.heap c)⟩ := by
  cases c with
  | allocateText source =>
    cases hr
    exact h.supply hc
  | allocateDoubles count =>
    simp only [HeapCall.runIn, Block.allocateDoubles_eq] at hr
    cases hr
    rw [HeapCall.InContract, ← Block.length_rampBytes] at hc
    simp only [Holdings.after, Value.pointerOrNull, ← Block.length_rampBytes]
    exact h.supply hc
  | allocateCounter =>
    simp only [HeapCall.runIn] at hr
    split at hr
    · cases hr
    · rename_i p s₁ hs₁
      cases hr
      exact h.record hc hs₁
  | release p =>
    cases hr
    simp only [Holdings.after]
    split
    · rename_i hp
      rw [Block.release_null hp]
      exact h
    · rename_i hp
      obtain ⟨n, hn⟩ := hc.resolve_left hp
      exact h.release hn fun a ha => Block.size?_release ha
  | freeCounter p =>
    cases hr
    simp only [Holdings.after]
    split
    · rename_i hp
      rw [CounterRecord.free_null hp]
      exact h
    · rename_i hp
      obtain ⟨hmem, hd⟩ := hc.resolve_left hp
      exact h.free hmem hd

theorem step (h : Listed k) {x : Action} {v : Value} (hx : x.InContract A k)
    (hs : x.ScratchSound A k) (hr : x.run A k = .returned (v, k')) : Listed k' := by
  cases x with
  | write a bs =>
    cases hr
    exact h.quiet fun _ _ => rfl
  | call c =>
    simp only [Action.run] at hr
    split at hr
    · cases hr
    · rename_i w s hrun
      cases hr
      cases c with
      | plain c =>
        refine h.quiet fun a ha => Call.size?_runIn hrun fun hsize => ?_
        exact (hs c rfl).ne_start hsize ha
      | heap c => exact h.call (hx.owns c rfl) hrun

theorem of_reaches (h : Listed k)
    (hr : Reaches A (fun k x => x.InContract A k ∧ x.ScratchSound A k) k k') : Listed k' := by
  induction hr with
  | refl => exact h
  | step _ hx hrun ih => exact ih.step hx.1 hx.2 hrun

end Listed

namespace Block

variable {s t : Arena} {p : Pointer} {n a : Nat}

structure Recovers (t : Arena) (p : Pointer) (n : Nat) : Prop where
  layout : layout? (payload t.memory p).toNat = some (n + header)
  release : Block.release t p = (t.emit (.blockReleased n)).free (base p) (n + header)
  outstanding : (Block.release t p).outstanding = t.outstanding - Int64.ofNat (n + header)

theorem toNat_payload (h : Recorded t.memory (p, n)) : (payload t.memory p).toNat = n := by
  rw [h.payload, UInt64.toNat_ofNat']
  exact Nat.mod_eq_of_lt h.lt

theorem recovers (h : Recorded t.memory (p, n)) : Recovers t p n where
  layout := by
    rw [toNat_payload h]
    exact h.layout
  release := release_eq h.notNull h.payload h.layout
  outstanding := release_of_layout h.notNull h.payload h.layout

theorem recorded_of_rewrites (hlayout : layout? n = some (n + header))
    (hlt : a + header < addressSpace)
    (hm : Rewrites [⟨a + header, n⟩] (s.withBlock a n).memory t.memory) :
    Recorded t.memory (.ofAddr (a + header), n) where
  notNull := Pointer.isNull_ofAddr (Nat.add_pos_right a (by decide)) hlt
  layout := hlayout
  payload := by
    have hapart : Region.Disjoint [⟨a + header, n⟩] [⟨a, 8⟩] := by
      intro i hi hheader
      rw [Region.contains_singleton, header] at hi
      rw [Region.contains_singleton] at hheader
      omega
    rw [payload, base_ofAddr hlt, ← (hm.agree hapart).load List.mem_cons_self rfl]
    exact s.memory.load_store a _

end Block

theorem headers_recover_layouts :
    (∀ n, (Block.layout? n).isSome = true ↔ n + Block.header ≤ 2 ^ 63 - 16) ∧
    (∀ n size, Block.layout? n = some size →
      size = n + Block.header ∧ (Ledger.signedSize size).toInt = size) ∧
    (∀ A s n, Block.Refused A s n → ∃ s', Block.allocate A s n = (.null, s') ∧ s.Unchanged s') ∧
    (∀ (A : Allocator) (s : Arena) (live : Region) (n a : Nat),
      A.SoundAt s.requests (n + Block.header) Block.header live →
      Block.layout? n = some (n + Block.header) →
      A s.requests (n + Block.header) Block.header = some a →
      ∃ p s', Block.allocate A s n = (p, s') ∧
        s'.ledger = s.ledger.grant Arena.thread (.allocate a (n + Block.header)) ∧
        s'.outstanding = s.outstanding + Int64.ofNat (n + Block.header) ∧
        p.isNull = false ∧ p.addr = a + Block.header ∧
        ∀ t : Arena, Rewrites [⟨p.addr, n⟩] s'.memory t.memory →
          Block.base p = a ∧ (Block.payload t.memory p).toNat = n ∧ Block.Recovers t p n) ∧
    ∀ (A : Allocator) (s : Arena),
      (∀ k, Reaches A (fun k x => x.InContract A k) ⟨s, .empty⟩ k →
        ∀ p n, (p, n) ∈ k.held.blocks → Block.Recovers k.arena p n) ∧
      ∀ k, Reaches A (fun k x => x.InContract A k ∧ x.ScratchSound A k) ⟨s, .empty⟩ k →
        ∀ p n, (p, n) ∈ k.held.blocks →
          k.arena.ledger.size? (Block.base p) = some (n + Block.header) := by
  refine ⟨?_, ?_, fun A s n => Block.allocate_of_refused, ?_, ?_⟩
  · intro n
    rw [Option.isSome_iff_exists]
    constructor
    · rintro ⟨size, h⟩
      exact (Block.layout?_eq_some_iff.mp h).2
    · intro h
      exact ⟨_, Block.layout?_eq_some_iff.mpr ⟨rfl, h⟩⟩
  · intro n size h
    obtain ⟨rfl, hmax⟩ := Block.layout?_eq_some h
    refine ⟨rfl, ?_⟩
    rw [Ledger.signedSize_of_le hmax, Int64.toInt_ofNat_of_lt (by omega)]
  · intro A s live n a hsound hlayout ha
    obtain ⟨-, hend, -⟩ := hsound a ha
    have hlt : a + Block.header < addressSpace := by omega
    have hmax := (Block.layout?_eq_some hlayout).2
    refine ⟨.ofAddr (a + Block.header), s.withBlock a n, Block.allocate_of_granted hlayout ha, rfl,
      ?_, ?_, Pointer.addr_ofAddr hlt, ?_⟩
    · rw [Arena.outstanding_withBlock, Ledger.signedSize_of_le hmax]
    · exact Pointer.isNull_ofAddr (Nat.add_pos_right a (by decide)) hlt
    · intro t ht
      rw [Pointer.addr_ofAddr hlt] at ht
      have hrecorded := Block.recorded_of_rewrites hlayout hlt ht
      exact ⟨Block.base_ofAddr hlt, Block.toNat_payload hrecorded, Block.recovers hrecorded⟩
  · intro A s
    refine ⟨?_, ?_⟩
    · intro k hk p n hp
      exact Block.recovers (((Accounts.start_empty s).of_reaches hk).blocks (p, n) hp)
    · intro k hk p n hp
      exact ((Listed.start_empty s).of_reaches hk).sizes (p, n) hp

theorem exists_overwritten : ∃ k, Reaches stretches
    (fun k x => x.InContract stretches k ∧ x.ScratchSound stretches k) beginning k ∧
      (Pointer.ofAddr 4112, 16) ∈ k.held.blocks ∧ k.arena.memory.byte 4112 = 9 := by
  have hallocate : (Action.call (.heap (.allocateDoubles 2))).InContract stretches beginning :=
    .heap (soundAt_stretches (by decide))
  refine ⟨_, .step (.step .refl ⟨hallocate, ?_⟩ rfl) (x := .write 4112 [9]) ⟨.write ?_, ?_⟩ rfl,
    ?_, ?_⟩
  · rintro c ⟨⟩
  · exact Region.disjoint_of_apart (by decide +kernel)
  · rintro c ⟨⟩
  · decide +kernel
  · rfl

theorem headers_recover_layouts_stretches :
    (Block.layout? (2 ^ 63 - 32)).isSome = true ∧ (Block.layout? (2 ^ 63 - 31)).isSome = false ∧
    (Block.layout? (2 ^ 64 - 1)).isSome = false ∧
    (∀ size, Block.layout? 5 = some size → (Ledger.signedSize size).toInt = size) ∧
    (∃ s', Block.allocate stretches beginning.arena (2 ^ 63 - 31) = (.null, s') ∧
      beginning.arena.Unchanged s') ∧
    (∃ p s', Block.allocate stretches beginning.arena 5 = (p, s') ∧ p.addr = 4112 ∧
      Block.Recovers { s' with memory := s'.memory.write 4114 [7, 8] } p 5) ∧
    ∃ k : Custody, k.arena.memory.byte 4112 = 9 ∧ Block.Recovers k.arena (.ofAddr 4112) 16 ∧
      k.arena.ledger.size? 4096 = some 32 := by
  obtain ⟨hlimit, hsize, hrefused, hgranted, hsession⟩ := headers_recover_layouts
  have hnone : Block.layout? (2 ^ 63 - 31) = none := by
    rw [← Option.not_isSome_iff_eq_none, hlimit]
    decide
  refine ⟨(hlimit _).mpr (by decide), ?_, ?_, fun size h => (hsize 5 size h).2,
    hrefused _ _ _ (Or.inl hnone), ?_, ?_⟩
  · rw [hnone]
    rfl
  · rw [← Bool.not_eq_true, hlimit]
    decide
  · obtain ⟨p, s', hrun, -, -, -, haddr, hkeeps⟩ :=
      hgranted stretches beginning.arena [] 5 4096 (soundAt_stretches (by decide)) rfl rfl
    refine ⟨p, s', hrun, haddr, (hkeeps _ ?_).2.2⟩
    refine .write .refl fun i hi => ?_
    rw [Region.contains_singleton] at hi ⊢
    simp only [List.length_cons, List.length_nil] at hi
    rw [haddr, Block.header]
    omega
  · obtain ⟨k, hk, hmem, hbyte⟩ := exists_overwritten
    obtain ⟨hrecovers, hlisted⟩ := hsession stretches beginning.arena
    exact ⟨k, hbyte, hrecovers k (hk.mono fun _ _ hx => hx.1) _ _ hmem, hlisted k hk _ _ hmem⟩

end AbiConformance
