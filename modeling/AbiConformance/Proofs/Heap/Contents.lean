import AbiConformance.Proofs.Heap.Allocation

namespace AbiConformance

theorem Region.Disjoint.symm {r t : Region} (h : r.Disjoint t) : t.Disjoint r :=
  fun i ht hr => h i hr ht

namespace Memory

inductive Rewrites (r : Region) (m : Memory) : Memory → Prop
  | refl : Rewrites r m m
  | write {m' : Memory} {a : Nat} {bs : List UInt8} : Rewrites r m m' →
      (∀ i, Region.Contains [⟨a, bs.length⟩] i → r.Contains i) → Rewrites r m (m'.write a bs)

variable {r t : Region} {m m' : Memory}

theorem Rewrites.byte_eq (h : Rewrites r m m') {i : Nat} (hi : ¬r.Contains i) :
    m'.byte i = m.byte i := by
  induction h with
  | refl => rfl
  | write _ hinside ih =>
    rw [byte_write_of_not_contains (fun hc => hi (hinside i hc)) List.mem_cons_self, ih]

theorem Rewrites.agree (h : Rewrites r m m') (hd : r.Disjoint t) : Agree t m m' :=
  Agree.of_frame hd fun _ hi => h.byte_eq hi

end Memory

open Memory

namespace Block

def extent (p : Pointer) (n : Nat) : Region := [⟨base p, n + header⟩]

structure Supplied (s s' : Arena) (live : Region) (p : Pointer) (bytes : List UInt8) : Prop
    extends Fresh s s' live p bytes.length where
  addr : p.addr = base p + header
  contents : s'.memory.read p.addr bytes.length = bytes

section Supply

variable {A : Allocator} {s : Arena} {live : Region} {bytes : List UInt8}

theorem supply_supplied (h : A.SoundAt s.requests (bytes.length + header) header live)
    (hp : (supply A s bytes).1.isNull = false) :
    Supplied s (supply A s bytes).2 live (supply A s bytes).1 bytes := by
  rcases allocate_cases A s bytes.length with ⟨s', heq, -⟩ | ⟨a, s', heq, hplaced⟩
  · simp [supply, heq] at hp
  · obtain ⟨-, hend, -⟩ := h a hplaced.answer
    have hlt : a + header < addressSpace := by omega
    have hfresh := hplaced.fresh h
    simp only [supply, heq]
    refine ⟨hfresh, ?_, ?_⟩
    · rw [base_ofAddr hlt, Pointer.addr_ofAddr hlt]
    · simp only [fill, hfresh.notNull, Bool.false_eq_true, if_false]
      exact read_write _ _ _

theorem isNull_supply (h : A.SoundAt s.requests (bytes.length + header) header live) :
    (supply A s bytes).1.isNull = false ↔ layout? bytes.length = some (bytes.length + header) ∧
      (A s.requests (bytes.length + header) header).isSome = true := by
  constructor
  · intro hp
    rcases allocate_cases A s bytes.length with ⟨s', heq, -⟩ | ⟨a, s', -, hplaced⟩
    · simp [supply, heq] at hp
    · exact ⟨hplaced.layout, Option.isSome_iff_exists.mpr ⟨a, hplaced.answer⟩⟩
  · rintro ⟨hlayout, hgrant⟩
    obtain ⟨a, ha⟩ := Option.isSome_iff_exists.mp hgrant
    obtain ⟨-, hend, -⟩ := h a ha
    simp only [supply, allocate, hlayout, Arena.request, ha]
    exact Pointer.isNull_ofAddr (Nat.add_pos_right a (by decide)) (by omega)

end Supply

namespace Supplied

variable {s s' t : Arena} {live : Region} {p : Pointer} {bytes : List UInt8} {m : Memory}

theorem lt (h : Supplied s s' live p bytes) : bytes.length < addressSpace := by
  have hmax := (layout?_eq_some h.layout).2
  rw [addressSpace]
  omega

theorem extent_of_contents (h : Supplied s s' live p bytes) {i : Nat}
    (hi : Region.Contains [⟨p.addr, bytes.length⟩] i) : (extent p bytes.length).Contains i := by
  rw [Region.contains_singleton, h.addr] at hi
  rw [extent, Region.contains_singleton]
  omega

theorem extent_of_header {i : Nat} (hi : Region.Contains [⟨base p, 8⟩] i) :
    (extent p bytes.length).Contains i := by
  rw [Region.contains_singleton] at hi
  rw [extent, Region.contains_singleton, header]
  omega

theorem apart_contents (h : Supplied s s' live p bytes) :
    live.Disjoint [⟨p.addr, bytes.length⟩] :=
  h.apart.symm.mono_right h.extent_of_contents

theorem apart_header (h : Supplied s s' live p bytes) :
    Region.Disjoint (live ++ [⟨p.addr, bytes.length⟩]) [⟨base p, 8⟩] := by
  intro i hi hheader
  rcases Region.contains_append.mp hi with hlive | hcontents
  · exact h.apart i (extent_of_header hheader) hlive
  · rw [Region.contains_singleton] at hheader hcontents
    rw [h.addr, header] at hcontents
    omega

theorem read_rewritten (h : Supplied s s' live p bytes) (hm : Rewrites live s'.memory m) :
    m.read p.addr bytes.length = bytes :=
  ((hm.agree h.apart_contents).read List.mem_cons_self).symm.trans h.contents

theorem live_rewritten (h : Supplied s s' live p bytes)
    (hm : Rewrites [⟨p.addr, bytes.length⟩] s'.memory m) : Agree live s.memory m := by
  intro i hi
  rw [← hm.agree h.apart_contents.symm i hi]
  exact (h.frame i fun hblock => h.apart i hblock hi).symm

theorem payload_rewritten (h : Supplied s s' live p bytes)
    (hm : Rewrites (live ++ [⟨p.addr, bytes.length⟩]) s'.memory m) :
    Block.payload m p = UInt64.ofNat bytes.length :=
  ((hm.agree h.apart_header).symm.load List.mem_cons_self rfl).trans h.payload

theorem outstanding_release (h : Supplied s s' live p bytes)
    (hm : Rewrites (live ++ [⟨p.addr, bytes.length⟩]) s'.memory t.memory)
    (ht : t.outstanding = s'.outstanding) : (release t p).outstanding = s.outstanding := by
  rw [release_of_layout h.notNull (h.payload_rewritten hm) h.layout, ht, h.outstanding]
  exact Int64.add_sub_cancel ..

end Supplied

end Block

end AbiConformance
