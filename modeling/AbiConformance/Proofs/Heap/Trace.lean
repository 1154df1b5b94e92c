import AbiConformance.Proofs.Heap.Accounting
import Mathlib.Data.List.Count

namespace AbiConformance

namespace Event

def mark : Event → Char
  | blockAllocated _ => 'o'
  | blockReleased _ => 'e'
  | structAllocated => 'a'
  | structFreed => 'f'

theorem mark_line (e : Event) : e.line.toList[30]? = some e.mark := by
  cases e with
  | blockAllocated bytes =>
    unfold line
    rw [String.toList_append]
    rfl
  | blockReleased bytes =>
    unfold line
    rw [String.toList_append]
    rfl
  | structAllocated => rfl
  | structFreed => rfl

theorem eq_of_repr_eq {m n : Nat} (h : m.repr = n.repr) : m = n := by
  have hread : ∀ k : Nat, Nat.ofDigitChars 10 k.repr.toList 0 = k := by
    intro k
    rw [Nat.toList_repr, Nat.ofDigitChars_toDigits (by decide) (by decide)]
  rw [← hread m, ← hread n, h]

theorem line_injective : Function.Injective line := by
  intro e f h
  have hmark : some e.mark = some f.mark := by rw [← mark_line, ← mark_line, h]
  cases e with
  | blockAllocated bytes =>
    cases f with
    | blockAllocated bytes' =>
      unfold line at h
      rw [eq_of_repr_eq ((String.append_right_inj _).mp h)]
    | _ => simp [mark] at hmark
  | blockReleased bytes =>
    cases f with
    | blockReleased bytes' =>
      unfold line at h
      rw [eq_of_repr_eq ((String.append_right_inj _).mp h)]
    | _ => simp [mark] at hmark
  | structAllocated =>
    cases f with
    | structAllocated => rfl
    | _ => simp [mark] at hmark
  | structFreed =>
    cases f with
    | structFreed => rfl
    | _ => simp [mark] at hmark

end Event

namespace Arena

@[simp] theorem log_emit (s : Arena) (e : Event) : (s.emit e).log = s.log ++ [e] := rfl

@[simp] theorem log_free (s : Arena) (a size : Nat) : (s.free a size).log = s.log := rfl

theorem log_request {A : Allocator} {s s' : Arena} {size align : Nat} {answer : Option Nat}
    (h : s.request A size align = (answer, s')) : s'.log = s.log := by
  unfold request at h
  split at h <;> cases h <;> rfl

theorem log_scratch {A : Allocator} {s s' : Arena} {size align : Nat}
    (h : s.scratch A size align = .returned s') : s'.log = s.log := by
  unfold scratch at h
  split at h
  · cases h
    rfl
  · split at h
    · cases h
    · rename_i a s₁ hs₁
      have hlog := log_request hs₁
      cases h
      exact hlog

end Arena

namespace Block

theorem allocate_log (A : Allocator) (s : Arena) (n : Nat) :
    ((allocate A s n).1 = .null ∧ (allocate A s n).2.log = s.log) ∨
    ∃ a, A s.requests (n + header) header = some a ∧ (allocate A s n).1 = .ofAddr (a + header) ∧
      (allocate A s n).2.log = s.log ++ [.blockAllocated n] := by
  unfold allocate
  split
  · exact Or.inl ⟨rfl, rfl⟩
  · rename_i size hsize
    obtain ⟨rfl, -⟩ := layout?_eq_some hsize
    split
    · rename_i s₁ hs₁
      exact Or.inl ⟨rfl, Arena.log_request hs₁⟩
    · rename_i a s₁ hs₁
      refine Or.inr ⟨a, (Arena.request_some hs₁).answer, rfl, ?_⟩
      rw [Arena.log_emit, Arena.log_request hs₁]

theorem log_fill (s : Arena) (p : Pointer) (bytes : List UInt8) :
    (fill s p bytes).log = s.log := by
  unfold fill
  split <;> rfl

theorem log_supply {A : Allocator} {s : Arena} {live : Region} {bytes : List UInt8}
    (h : A.SoundAt s.requests (bytes.length + header) header live) :
    (supply A s bytes).2.log = s.log ++
      if (supply A s bytes).1.isNull then [] else [.blockAllocated bytes.length] := by
  have hlog : (supply A s bytes).2.log = (allocate A s bytes.length).2.log := log_fill ..
  have hp : (supply A s bytes).1 = (allocate A s bytes.length).1 := rfl
  simp only [hlog, hp]
  rcases allocate_log A s bytes.length with ⟨hnull, hsame⟩ | ⟨a, ha, hgranted, hnew⟩
  · simp [hnull, hsame]
  · obtain ⟨hpos, hend, -⟩ := h a ha
    have hnull : (Pointer.ofAddr (a + header)).isNull = false :=
      Pointer.isNull_ofAddr (by omega) (by omega)
    simp [hgranted, hnew, hnull]

theorem log_release {s : Arena} {p : Pointer} {n : Nat} (h : Recorded s.memory (p, n)) :
    (release s p).log = s.log ++ [.blockReleased n] := by
  rw [release_eq h.notNull h.payload h.layout, Arena.log_free, Arena.log_emit]

end Block

namespace CounterRecord

theorem log_allocate {A : Allocator} {s s' : Arena} {p : Pointer}
    (h : allocate A s = .returned (p, s')) : s'.log = s.log ++ [.structAllocated] := by
  unfold allocate at h
  split at h
  · cases h
  · rename_i d s₁ hs₁
    split at h
    · cases h
    · rename_i r s₂ hs₂
      have hlog := (Arena.log_request hs₂).trans (Arena.log_request hs₁)
      cases h
      rw [Arena.log_emit, ← hlog]

theorem log_free {s : Arena} {p : Pointer} (h : p.isNull = false) :
    (free s p).log = s.log ++ [.structFreed] := by
  simp only [free, h, Bool.false_eq_true, if_false, Arena.log_free, Arena.log_emit]
  split <;> rfl

end CounterRecord

namespace Holdings

variable {h : Holdings} {p : Pointer} {n : Nat}

def lengthOf (h : Holdings) (p : Pointer) : Nat := (h.blocks.lookup p).getD 0

theorem exists_split (hp : (p, n) ∈ h.blocks) : ∃ front rest,
    h.blocks = front ++ (p, h.lengthOf p) :: rest ∧ (h.dropBlock p).blocks = front ++ rest := by
  obtain ⟨⟨q, k⟩, front, rest, hfront, hq, hsplit, herase⟩ :=
    List.exists_of_eraseP (p := fun b : Pointer × Nat => b.1 = p) hp (by simp)
  obtain rfl : q = p := by simpa using hq
  have hlookup : h.blocks.lookup q = some k := by
    refine List.lookup_eq_some_iff.mpr ⟨front, rest, hsplit, ?_⟩
    intro b hb
    have hne : b.1 ≠ q := by simpa using hfront b hb
    exact bne_iff_ne.mpr hne.symm
  refine ⟨front, rest, ?_, herase⟩
  rw [lengthOf, hlookup]
  exact hsplit

end Holdings

def EntryCall.events (k : Custody) (p : Pointer) : EntryCall → List Event
  | .plain _ => []
  | .heap (.allocateText source) =>
    if p.isNull then [] else [.blockAllocated (k.arena.memory.stringAt source).length]
  | .heap (.allocateDoubles count) =>
    if p.isNull then [] else [.blockAllocated (elementCount count * 8)]
  | .heap .allocateCounter => [.structAllocated]
  | .heap (.release q) => if q.isNull then [] else [.blockReleased (k.held.lengthOf q)]
  | .heap (.freeCounter q) => if q.isNull then [] else [.structFreed]

def Action.events (k : Custody) (v : Value) : Action → List Event
  | call c => c.events k v.pointerOrNull
  | write .. => []

theorem Call.log_runIn {A : Allocator} {s s' : Arena} {c : Call} {v : Value}
    (h : c.runIn A s = .returned (v, s')) : s'.log = s.log := by
  unfold runIn at h
  simp only at h
  split at h
  · cases h
  · rename_i s₁ hs₁
    have hlog := Arena.log_scratch hs₁
    cases h
    exact hlog

theorem HeapCall.log_runIn {A : Allocator} {k : Custody} {c : HeapCall} {v : Value} {s : Arena}
    {start : Int64} (hk : Accounts start k) (hc : c.InContract A k)
    (hr : c.runIn A k.arena = .returned (v, s)) :
    s.log = k.arena.log ++ EntryCall.events k v.pointerOrNull (.heap c) := by
  cases c with
  | allocateText source =>
    cases hr
    exact Block.log_supply hc
  | allocateDoubles count =>
    simp only [runIn, Block.allocateDoubles_eq] at hr
    cases hr
    rw [InContract, ← Block.length_rampBytes] at hc
    simp only [EntryCall.events, Value.pointerOrNull, ← Block.length_rampBytes]
    exact Block.log_supply hc
  | allocateCounter =>
    simp only [runIn] at hr
    split at hr
    · cases hr
    · rename_i p s₁ hs₁
      cases hr
      exact CounterRecord.log_allocate hs₁
  | release p =>
    cases hr
    simp only [EntryCall.events]
    split
    · rename_i hp
      rw [Block.release_null hp, List.append_nil]
    · rename_i hp
      obtain ⟨n, hn⟩ := hc.resolve_left hp
      obtain ⟨front, rest, hsplit, -⟩ := Holdings.exists_split hn
      exact Block.log_release (hk.blocks _ (by simp [hsplit]))
  | freeCounter p =>
    cases hr
    simp only [EntryCall.events]
    split
    · rename_i hp
      rw [CounterRecord.free_null hp, List.append_nil]
    · rename_i hp
      exact CounterRecord.log_free (Bool.eq_false_iff.mpr hp)

theorem Action.run_log {A : Allocator} {k k' : Custody} {x : Action} {v : Value} {start : Int64}
    (hk : Accounts start k) (hx : x.InContract A k) (hr : x.run A k = .returned (v, k')) :
    k'.arena.log = k.arena.log ++ x.events k v := by
  cases x with
  | write a bs =>
    cases hr
    exact (List.append_nil _).symm
  | call c =>
    simp only [run] at hr
    split at hr
    · cases hr
    · rename_i w s hs
      cases hr
      cases c with
      | plain c => exact (Call.log_runIn hs).trans (List.append_nil _).symm
      | heap c => exact HeapCall.log_runIn hk (hx.owns c rfl) hs

structure Tallied (es : List Event) (h : Holdings) : Prop where
  blocks : ∀ n, es.count (.blockAllocated n) =
    es.count (.blockReleased n) + h.blocks.countP (fun b => b.2 = n)
  records : es.count .structAllocated = es.count .structFreed + h.records.length

namespace Tallied

variable {es : List Event} {h : Holdings}

theorem nil : Tallied [] .empty := ⟨fun _ => rfl, rfl⟩

theorem addBlock (ht : Tallied es h) (p : Pointer) (n : Nat) :
    Tallied (es ++ [.blockAllocated n]) (h.addBlock p n) where
  blocks := by
    intro k
    have hlines : (es ++ [Event.blockAllocated n]).count (.blockAllocated k) =
        es.count (.blockAllocated k) + if n = k then 1 else 0 := by
      simp [List.count_append, List.count_singleton]
    have hreleased : (es ++ [Event.blockAllocated n]).count (.blockReleased k) =
        es.count (.blockReleased k) := by simp [List.count_append]
    have hheld : (h.addBlock p n).blocks.countP (fun b => b.2 = k) =
        h.blocks.countP (fun b => b.2 = k) + if n = k then 1 else 0 := by
      simp [Holdings.addBlock, List.countP_cons]
    rw [hlines, hreleased, hheld, ht.blocks k, Nat.add_assoc]
  records := by simpa [List.count_append, List.count_singleton, Holdings.addBlock] using ht.records

theorem dropBlock (ht : Tallied es h) {p : Pointer} {n : Nat} (hp : (p, n) ∈ h.blocks) :
    Tallied (es ++ [.blockReleased (h.lengthOf p)]) (h.dropBlock p) where
  blocks := by
    intro k
    obtain ⟨front, rest, hsplit, hdrop⟩ := Holdings.exists_split hp
    have hk := ht.blocks k
    have hlines : (es ++ [Event.blockReleased (h.lengthOf p)]).count (.blockAllocated k) =
        es.count (.blockAllocated k) := by simp [List.count_append]
    have hreleased : (es ++ [Event.blockReleased (h.lengthOf p)]).count (.blockReleased k) =
        es.count (.blockReleased k) + if h.lengthOf p = k then 1 else 0 := by
      simp [List.count_append, List.count_singleton]
    have hone : (if decide (h.lengthOf p = k) = true then 1 else 0) =
        if h.lengthOf p = k then 1 else 0 := by simp only [decide_eq_true_eq]
    rw [hsplit, List.countP_append, List.countP_cons, hone] at hk
    rw [hlines, hreleased, hdrop, List.countP_append]
    omega
  records := by simpa [List.count_append, List.count_singleton, Holdings.dropBlock] using ht.records

theorem addRecord (ht : Tallied es h) (p d : Pointer) :
    Tallied (es ++ [.structAllocated]) (h.addRecord p d) where
  blocks := by
    intro k
    simpa [List.count_append, List.count_singleton, Holdings.addRecord] using ht.blocks k
  records := by
    have hlines : (es ++ [Event.structAllocated]).count .structAllocated =
        es.count .structAllocated + 1 := by simp [List.count_append]
    have hfreed : (es ++ [Event.structAllocated]).count .structFreed = es.count .structFreed := by
      simp [List.count_append]
    have hheld : (h.addRecord p d).records.length = h.records.length + 1 := by
      simp [Holdings.addRecord]
    rw [hlines, hfreed, hheld, ht.records, Nat.add_assoc]

theorem dropRecord (ht : Tallied es h) {p : Pointer} (d : Pointer) (hp : p ∈ h.records) :
    Tallied (es ++ [.structFreed]) (h.dropRecord p d) where
  blocks := by
    intro k
    simpa [List.count_append, List.count_singleton, Holdings.dropRecord] using ht.blocks k
  records := by
    have hlines : (es ++ [Event.structFreed]).count .structAllocated =
        es.count .structAllocated := by simp [List.count_append]
    have hfreed : (es ++ [Event.structFreed]).count .structFreed = es.count .structFreed + 1 := by
      simp [List.count_append]
    have hheld : (h.dropRecord p d).records.length = h.records.length - 1 :=
      List.length_erase_of_mem hp
    have hpos := List.length_pos_of_mem hp
    have hr := ht.records
    rw [hlines, hfreed, hheld]
    omega

theorem call {A : Allocator} {k : Custody} {c : HeapCall} (ht : Tallied es k.held)
    (hc : c.InContract A k) (new : Memory) (p : Pointer) :
    Tallied (es ++ EntryCall.events k p (.heap c))
      (k.held.after k.arena.memory new p (.heap c)) := by
  cases c with
  | allocateText source =>
    simp only [EntryCall.events, Holdings.after]
    split
    · simpa using ht
    · exact ht.addBlock _ _
  | allocateDoubles count =>
    simp only [EntryCall.events, Holdings.after]
    split
    · simpa using ht
    · exact ht.addBlock _ _
  | allocateCounter => exact ht.addRecord _ _
  | release q =>
    simp only [EntryCall.events, Holdings.after]
    split
    · simpa using ht
    · rename_i hq
      obtain ⟨n, hn⟩ := hc.resolve_left hq
      exact ht.dropBlock hn
  | freeCounter q =>
    simp only [EntryCall.events, Holdings.after]
    split
    · simpa using ht
    · rename_i hq
      exact ht.dropRecord _ (hc.resolve_left hq).1

theorem step {A : Allocator} {k k' : Custody} {x : Action} {v : Value} (ht : Tallied es k.held)
    (hx : x.InContract A k) (hr : x.run A k = .returned (v, k')) :
    Tallied (es ++ x.events k v) k'.held := by
  cases x with
  | write a bs =>
    cases hr
    simpa [Action.events] using ht
  | call c =>
    simp only [Action.run] at hr
    split at hr
    · cases hr
    · rename_i w s hs
      cases hr
      cases c with
      | plain c => simpa [Action.events, EntryCall.events, Holdings.after] using ht
      | heap c => exact ht.call (hx.owns c rfl) _ _

end Tallied

inductive Narrates (A : Allocator) (start : Custody) : List Event → Custody → Prop
  | refl : Narrates A start [] start
  | step {es : List Event} {k k' : Custody} {x : Action} {v : Value} : Narrates A start es k →
      x.InContract A k → x.run A k = .returned (v, k') →
      Narrates A start (es ++ x.events k v) k'

namespace Narrates

variable {A : Allocator} {start k : Custody} {es : List Event}

theorem reaches (h : Narrates A start es k) :
    Reaches A (fun k x => x.InContract A k) start k := by
  induction h with
  | refl => exact .refl
  | step _ hx hr ih => exact .step ih hx hr

theorem exists_of_reaches (h : Reaches A (fun k x => x.InContract A k) start k) :
    ∃ es, Narrates A start es k := by
  induction h with
  | refl => exact ⟨[], .refl⟩
  | step _ hx hr ih =>
    obtain ⟨es, hes⟩ := ih
    exact ⟨_, .step hes hx hr⟩

theorem log {s : Arena} (h : Narrates A ⟨s, .empty⟩ es k) : k.arena.log = s.log ++ es := by
  induction h with
  | refl => exact (List.append_nil _).symm
  | step hes hx hr ih =>
    have haccounts := (Accounts.start_empty s).of_reaches hes.reaches
    rw [Action.run_log haccounts hx hr, ih, List.append_assoc]

theorem tallied {s : Arena} (h : Narrates A ⟨s, .empty⟩ es k) : Tallied es k.held := by
  induction h with
  | refl => exact .nil
  | step _ hx hr ih => exact ih.step hx hr

end Narrates

def Arena.captured (render : Event → String) (s t : Arena) : List String :=
  (t.log.drop s.log.length).map render

theorem captured_lines_tell_holdings (A : Allocator) (s : Arena) {render : Event → String}
    (hrender : Function.Injective render) :
    (∀ k, Reaches A (fun k x => x.InContract A k) ⟨s, .empty⟩ k →
      ∃ es, Narrates A ⟨s, .empty⟩ es k) ∧
    ∀ es k, Narrates A ⟨s, .empty⟩ es k →
      s.captured render k.arena = es.map render ∧
      (∀ n, (s.captured render k.arena).count (render (.blockAllocated n)) =
        (s.captured render k.arena).count (render (.blockReleased n)) +
          k.held.blocks.countP (fun b => b.2 = n)) ∧
      (s.captured render k.arena).count (render .structAllocated) =
        (s.captured render k.arena).count (render .structFreed) + k.held.records.length := by
  refine ⟨fun k => Narrates.exists_of_reaches, ?_⟩
  intro es k h
  have hcaptured : s.captured render k.arena = es.map render := by
    rw [Arena.captured, h.log, List.drop_left]
  have hcount : ∀ e : Event, (s.captured render k.arena).count (render e) = es.count e := by
    intro e
    rw [hcaptured, List.count_map_of_injective _ _ hrender]
  refine ⟨hcaptured, ?_, ?_⟩
  · intro n
    rw [hcount, hcount]
    exact h.tallied.blocks n
  · rw [hcount, hcount]
    exact h.tallied.records

theorem exists_narrated : ∃ es k, Narrates stretches beginning es k ∧
    es = [.blockAllocated 16, .structAllocated, .blockReleased 16] ∧
    k.held = ⟨[], [.ofAddr 4224], [.ofAddr 4160]⟩ := by
  have hdoubles : (Action.call (.heap (.allocateDoubles 2))).InContract stretches beginning := by
    refine .heap ?_
    rintro a ⟨⟩
    exact ⟨by decide, by decide, Region.disjoint_of_apart (by decide)⟩
  refine ⟨_, _, .step (.step (.step (.step .refl hdoubles rfl)
    (x := .call (.heap .allocateCounter)) (.heap ⟨?_, ?_⟩) rfl)
    (x := .call (.heap (.release (.ofAddr 4112)))) (.heap (Or.inr ⟨16, ?_⟩)) rfl)
    (x := .call (.heap (.release .null))) (.heap (Or.inl rfl)) rfl, ?_, ?_⟩
  · rintro a ⟨⟩
    exact ⟨by decide, by decide, Region.disjoint_of_apart (by decide +kernel)⟩
  · rintro d ⟨⟩ a ⟨⟩
    exact ⟨by decide, by decide, Region.disjoint_of_apart (by decide +kernel)⟩
  · decide +kernel
  · decide +kernel
  · rfl

theorem captured_lines_tell_holdings_stretches :
    Function.Injective Event.line ∧ ∃ es k, Narrates stretches beginning es k ∧
      let lines := beginning.arena.captured Event.line k.arena
      lines = ["TRACE marshal::heap: block allocated bytes=16",
        "TRACE marshal::record: struct allocated",
        "TRACE marshal::heap: block released bytes=16"] ∧
      lines.count (Event.blockAllocated 16).line =
        lines.count (Event.blockReleased 16).line + 0 ∧
      lines.count Event.structAllocated.line = lines.count Event.structFreed.line + 1 := by
  obtain ⟨es, k, h, hes, hheld⟩ := exists_narrated
  obtain ⟨hcaptured, hblocks, hrecords⟩ :=
    (captured_lines_tell_holdings stretches beginning.arena Event.line_injective).2 es k h
  refine ⟨Event.line_injective, es, k, h, ?_, ?_, ?_⟩
  · rw [hcaptured, hes]
    rfl
  · simpa [hheld] using hblocks 16
  · simpa [hheld] using hrecords

end AbiConformance
