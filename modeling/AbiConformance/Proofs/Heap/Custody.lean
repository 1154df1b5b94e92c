import AbiConformance.Proofs.Call.Footprint
import AbiConformance.Proofs.Heap.Allocation
import AbiConformance.Session.Basic

namespace AbiConformance

structure Holdings where
  blocks : List (Pointer × Nat)
  records : List Pointer
  targets : List Pointer

namespace Holdings

def empty : Holdings := ⟨[], [], []⟩

def bytes (h : Holdings) : Nat :=
  (h.blocks.map fun b => b.2 + Block.header).sum + CounterRecord.size * h.records.length +
    CounterRecord.targetSize * h.targets.length

def extents (h : Holdings) : Region :=
  (h.blocks.map fun b => ⟨Block.base b.1, b.2 + Block.header⟩) ++
    (h.records.map fun p => ⟨p.addr, CounterRecord.size⟩) ++
    h.targets.map fun d => ⟨d.addr, CounterRecord.targetSize⟩

def headers (h : Holdings) : Region := h.blocks.map fun b => ⟨Block.base b.1, 8⟩

def links (h : Holdings) : Region := h.records.map fun p => ⟨p.addr + 24, 8⟩

def addBlock (h : Holdings) (p : Pointer) (n : Nat) : Holdings :=
  { h with blocks := (p, n) :: h.blocks }

def addRecord (h : Holdings) (p d : Pointer) : Holdings :=
  { h with records := p :: h.records, targets := d :: h.targets }

def dropBlock (h : Holdings) (p : Pointer) : Holdings :=
  { h with blocks := h.blocks.eraseP fun b => b.1 = p }

def dropRecord (h : Holdings) (p d : Pointer) : Holdings :=
  { h with
    records := h.records.erase p
    targets := if d.isNull then h.targets else h.targets.erase d }

def after (h : Holdings) (old new : Memory) (p : Pointer) : EntryCall → Holdings
  | .plain _ => h
  | .heap (.allocateText source) =>
    if p.isNull then h else h.addBlock p (old.stringAt source).length
  | .heap (.allocateDoubles count) => if p.isNull then h else h.addBlock p (elementCount count * 8)
  | .heap .allocateCounter => h.addRecord p (CounterRecord.targetOf new p)
  | .heap (.release q) => if q.isNull then h else h.dropBlock q
  | .heap (.freeCounter q) =>
    if q.isNull then h else h.dropRecord q (CounterRecord.targetOf old q)

end Holdings

def EntryCall.transfers : EntryCall → Bool
  | .plain _ => false
  | .heap (.release p) => !p.isNull
  | .heap (.freeCounter p) => !p.isNull
  | .heap _ => true

def Value.pointerOrNull : Value → Pointer
  | .pointer p => p
  | _ => .null

structure Custody where
  arena : Arena
  held : Holdings

inductive Action where
  | call (c : EntryCall)
  | write (a : Nat) (bs : List UInt8)

namespace Action

def run (A : Allocator) (k : Custody) : Action → Outcome (Value × Custody)
  | call c =>
    match c.run A k.arena with
    | .aborted => .aborted
    | .returned (v, s) =>
      .returned (v, ⟨s, k.held.after k.arena.memory s.memory v.pointerOrNull c⟩)
  | write a bs =>
    .returned (.nothing, { k with arena := { k.arena with memory := k.arena.memory.write a bs } })

def writes (m : Memory) : Action → Region
  | call (.plain c) => c.writes m
  | call (.heap _) => []
  | write a bs => [⟨a, bs.length⟩]

end Action

def HeapCall.InContract (A : Allocator) (k : Custody) : HeapCall → Prop
  | allocateText source =>
    A.SoundAt k.arena.requests ((k.arena.memory.stringAt source).length + Block.header) Block.header
      k.held.extents
  | allocateDoubles count =>
    A.SoundAt k.arena.requests (elementCount count * 8 + Block.header) Block.header k.held.extents
  | allocateCounter => CounterRecord.SoundAt A k.arena.requests k.held.extents
  | release p => p.isNull = true ∨ ∃ n, (p, n) ∈ k.held.blocks
  | freeCounter p =>
    p.isNull = true ∨ p ∈ k.held.records ∧
      ((CounterRecord.targetOf k.arena.memory p).isNull = true ∨
        CounterRecord.targetOf k.arena.memory p ∈ k.held.targets)

namespace Action

structure InContract (A : Allocator) (k : Custody) (x : Action) : Prop where
  spares : (x.writes k.arena.memory).Disjoint k.held.headers
  owns : ∀ c, x = call (.heap c) → c.InContract A k

theorem InContract.heap {A : Allocator} {k : Custody} {c : HeapCall} (h : c.InContract A k) :
    (call (.heap c)).InContract A k where
  spares := fun i hi => absurd hi (Region.not_contains_nil i)
  owns := by
    rintro c ⟨⟩
    exact h

theorem InContract.write {A : Allocator} {k : Custody} {a : Nat} {bs : List UInt8}
    (h : Region.Disjoint [⟨a, bs.length⟩] k.held.headers) : (write a bs).InContract A k where
  spares := h
  owns := by
    rintro c ⟨⟩

def KeepsLinks (k : Custody) (x : Action) : Prop := (x.writes k.arena.memory).Disjoint k.held.links

end Action

inductive Reaches (A : Allocator) (allowed : Custody → Action → Prop) (start : Custody) :
    Custody → Prop
  | refl : Reaches A allowed start start
  | step {k k' : Custody} {x : Action} {v : Value} : Reaches A allowed start k → allowed k x →
      x.run A k = .returned (v, k') → Reaches A allowed start k'

theorem Reaches.mono {A : Allocator} {allowed allowed' : Custody → Action → Prop}
    {start k : Custody} (h : Reaches A allowed start k)
    (hsub : ∀ k x, allowed k x → allowed' k x) : Reaches A allowed' start k := by
  induction h with
  | refl => exact .refl
  | step _ hx hr ih => exact .step ih (hsub _ _ hx) hr

inductive Effect (k : Custody) (writes : Region) : Custody → Prop
  | quiet {s : Arena} : s.outstanding = k.arena.outstanding →
      (∀ i, ¬writes.Contains i → s.memory.byte i = k.arena.memory.byte i) →
      Effect k writes ⟨s, k.held⟩
  | block {s : Arena} {p : Pointer} {n : Nat} : Block.Fresh k.arena s k.held.extents p n →
      Effect k writes ⟨s, k.held.addBlock p n⟩
  | record {s : Arena} {p : Pointer} : CounterRecord.Fresh k.arena s k.held.extents p →
      Effect k writes ⟨s, k.held.addRecord p (CounterRecord.targetOf s.memory p)⟩
  | release {p : Pointer} {n : Nat} : (p, n) ∈ k.held.blocks →
      Effect k writes ⟨Block.release k.arena p, k.held.dropBlock p⟩
  | free {p : Pointer} : p ∈ k.held.records →
      (CounterRecord.targetOf k.arena.memory p).isNull = true ∨
        CounterRecord.targetOf k.arena.memory p ∈ k.held.targets →
      Effect k writes ⟨CounterRecord.free k.arena p,
        k.held.dropRecord p (CounterRecord.targetOf k.arena.memory p)⟩

theorem Call.runIn_returned {A : Allocator} {s s' : Arena} {c : Call} {v : Value}
    (h : c.runIn A s = .returned (v, s')) :
    s'.memory = (c.run s.memory).2 ∧ s'.outstanding = s.outstanding := by
  unfold runIn at h
  simp only at h
  split at h
  · cases h
  · rename_i s₁ hs₁
    have houtstanding := Arena.outstanding_scratch hs₁
    cases h
    exact ⟨rfl, houtstanding⟩

theorem EntryCall.outstanding_of_not_transfers {A : Allocator} {s s' : Arena} {c : EntryCall}
    {v : Value} (hc : c.transfers = false) (h : c.run A s = .returned (v, s')) :
    s'.outstanding = s.outstanding := by
  cases c with
  | plain c => exact (Call.runIn_returned h).2
  | heap c =>
    cases c with
    | release p =>
      cases h
      rw [Block.release_null (by simpa [transfers] using hc)]
    | freeCounter p =>
      cases h
      rw [CounterRecord.free_null (by simpa [transfers] using hc)]
    | _ => cases hc

theorem Effect.refl (k : Custody) (writes : Region) : Effect k writes k :=
  .quiet rfl fun _ _ => rfl

theorem effect_supply {A : Allocator} {k : Custody} {writes : Region} {bytes : List UInt8}
    (h : A.SoundAt k.arena.requests (bytes.length + Block.header) Block.header k.held.extents) :
    Effect k writes ⟨(Block.supply A k.arena bytes).2,
      if (Block.supply A k.arena bytes).1.isNull then k.held
      else k.held.addBlock (Block.supply A k.arena bytes).1 bytes.length⟩ := by
  rcases Block.supply_cases h with ⟨s, heq, hmemory, houtstanding⟩ | ⟨p, s, heq, hfresh⟩
  · rw [heq]
    exact .quiet houtstanding fun i _ => by rw [hmemory]
  · rw [heq, if_neg (Bool.eq_false_iff.mp hfresh.notNull)]
    exact .block hfresh

namespace HeapCall

theorem runIn_effect {A : Allocator} {k : Custody} {c : HeapCall} {v : Value} {s : Arena}
    {writes : Region} (hc : c.InContract A k) (hr : c.runIn A k.arena = .returned (v, s)) :
    Effect k writes ⟨s, k.held.after k.arena.memory s.memory v.pointerOrNull (.heap c)⟩ := by
  cases c with
  | allocateText source =>
    simp only [runIn, Block.allocateText_eq] at hr
    cases hr
    exact effect_supply hc
  | allocateDoubles count =>
    simp only [runIn, Block.allocateDoubles_eq] at hr
    cases hr
    rw [InContract, ← Block.length_rampBytes] at hc
    simp only [Holdings.after, Value.pointerOrNull, ← Block.length_rampBytes]
    exact effect_supply hc
  | allocateCounter =>
    simp only [runIn] at hr
    split at hr
    · cases hr
    · rename_i p s₁ hs₁
      cases hr
      obtain ⟨d, r, rfl, hplaced⟩ := CounterRecord.allocate_placed hs₁
      exact .record (hplaced.fresh hc)
  | release p =>
    cases hr
    simp only [Holdings.after]
    split
    · rename_i hp
      rw [Block.release_null hp]
      exact .refl k writes
    · rename_i hp
      obtain ⟨n, hn⟩ := hc.resolve_left hp
      exact .release hn
  | freeCounter p =>
    cases hr
    simp only [Holdings.after]
    split
    · rename_i hp
      rw [CounterRecord.free_null hp]
      exact .refl k writes
    · rename_i hp
      obtain ⟨hmem, hd⟩ := hc.resolve_left hp
      exact .free hmem hd

end HeapCall

theorem Action.run_effect {A : Allocator} {k k' : Custody} {x : Action} {v : Value}
    (hx : x.InContract A k) (hr : x.run A k = .returned (v, k')) :
    Effect k (x.writes k.arena.memory) k' := by
  cases x with
  | write a bs =>
    cases hr
    refine .quiet rfl fun i hi => ?_
    exact Memory.byte_write_of_not_contains hi List.mem_cons_self
  | call c =>
    simp only [run] at hr
    split at hr
    · cases hr
    · rename_i w s hs
      cases hr
      cases c with
      | plain c =>
        obtain ⟨hmemory, houtstanding⟩ := Call.runIn_returned hs
        refine .quiet houtstanding fun i hi => ?_
        rw [hmemory]
        exact Call.run_frame hi
      | heap c => exact HeapCall.runIn_effect (hx.owns c rfl) hs

end AbiConformance
