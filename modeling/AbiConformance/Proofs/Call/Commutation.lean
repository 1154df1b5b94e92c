import AbiConformance.Proofs.Call.Footprint

namespace AbiConformance

open Memory

namespace Call

def touches (m : Memory) (c : Call) : Region := c.reads m ++ c.writes m

structure Independent (m : Memory) (c d : Call) : Prop where
  left : (c.writes m).Disjoint (d.touches m)
  right : (d.writes m).Disjoint (c.touches m)

theorem Independent.symm {m : Memory} {c d : Call} (h : Independent m c d) : Independent m d c :=
  ⟨h.right, h.left⟩

def runPair (m : Memory) (c d : Call) : (Value × Value) × Memory :=
  let (x, m') := c.run m
  let (y, m'') := d.run m'
  ((x, y), m'')

theorem agree_run_of_disjoint {m : Memory} {c : Call} {r : Region} (h : (c.writes m).Disjoint r) :
    Agree r m (c.run m).2 :=
  Agree.of_frame h fun _ hi => run_frame hi

section Independent

variable {m : Memory} {c d : Call}

theorem touches_congr {m' : Memory} (h : Agree (c.reads m) m m') : c.touches m = c.touches m' := by
  rw [touches, touches, reads_congr h, writes_congr h]

theorem Independent.of_consecutive (hc : (c.writes m).Disjoint (d.touches (c.run m).2))
    (hd : (d.writes (c.run m).2).Disjoint (c.touches m)) : Independent m c d := by
  have hagree := (agree_run_of_disjoint hc).symm
  have hreads := hagree.mono (List.subset_append_left _ _)
  constructor
  · rwa [← touches_congr hreads]
  · rwa [← writes_congr hreads]

theorem Independent.agree_touches (h : Independent m c d) : Agree (d.touches m) m (c.run m).2 :=
  agree_run_of_disjoint h.left

theorem Independent.agree_reads (h : Independent m c d) : Agree (d.reads m) m (c.run m).2 :=
  h.agree_touches.mono (List.subset_append_left _ _)

theorem Independent.value_eq (h : Independent m c d) : (d.run (c.run m).2).1 = (d.run m).1 :=
  (run_value_congr h.agree_reads).symm

theorem Independent.byte_eq_of_not_contains (h : Independent m c d) {i : Nat}
    (hi : ¬(d.writes m).Contains i) : (d.run (c.run m).2).2.byte i = (c.run m).2.byte i := by
  apply run_frame
  rwa [← writes_congr h.agree_reads]

theorem Independent.byte_eq_of_contains (h : Independent m c d) {i : Nat}
    (hi : (d.writes m).Contains i) : (d.run (c.run m).2).2.byte i = (d.run m).2.byte i := by
  have hagree := run_agree h.agree_touches
  exact (hagree i (Region.contains_append.mpr (Or.inr hi))).symm

theorem Independent.memory_eq (h : Independent m c d) :
    (d.run (c.run m).2).2 = (c.run (d.run m).2).2 := by
  apply Memory.ext
  funext i
  by_cases hc : (c.writes m).Contains i
  · have hd : ¬(d.writes m).Contains i := fun hd =>
      h.left i hc (Region.contains_append.mpr (Or.inr hd))
    rw [h.byte_eq_of_not_contains hd, h.symm.byte_eq_of_contains hc]
  · rw [h.symm.byte_eq_of_not_contains hc]
    by_cases hd : (d.writes m).Contains i
    · exact h.byte_eq_of_contains hd
    · rw [h.byte_eq_of_not_contains hd, run_frame hc, run_frame hd]

end Independent

theorem run_frame_and_swap :
    (∀ (m : Memory) (c : Call) (i : Nat), ¬(c.writes m).Contains i →
      (c.run m).2.byte i = m.byte i) ∧
    ∀ (m : Memory) (c d : Call), (c.writes m).Disjoint (d.touches (c.run m).2) →
      (d.writes (c.run m).2).Disjoint (c.touches m) →
      runPair m d c = ((runPair m c d).1.swap, (runPair m c d).2) := by
  constructor
  · intro m c i h
    exact run_frame h
  · intro m c d hc hd
    have h := Independent.of_consecutive hc hd
    simp only [runPair, Prod.swap_prod_mk]
    rw [h.value_eq, h.symm.value_eq, h.memory_eq]

def neighbours : Memory :=
  (LinkedRecord.store (CounterRecord.store .empty 64 ⟨1, 2, 3, .ofAddr 132⟩) 128
    ⟨5, ⟨7, 8, .zero, .one⟩, .null, .ofAddr 192⟩).write 192 [97, 98, 0]

theorem run_frame_and_swap_neighbours :
    let c := Call.incrementInPlace (.ofAddr 64) (-9)
    let d := Call.mutateLinked (.ofAddr 128)
    (c.writes neighbours).Disjoint (d.touches (c.run neighbours).2) ∧
      (d.writes (c.run neighbours).2).Disjoint (c.touches neighbours) ∧
      (c.run neighbours).2.byte 136 = neighbours.byte 136 ∧
      runPair neighbours d c = ((runPair neighbours c d).1.swap, (runPair neighbours c d).2) := by
  intro c d
  have hc : (c.writes neighbours).Disjoint (d.touches (c.run neighbours).2) := by
    apply Region.disjoint_of_apart
    decide +kernel
  have hd : (d.writes (c.run neighbours).2).Disjoint (c.touches neighbours) := by
    apply Region.disjoint_of_apart
    decide +kernel
  refine ⟨hc, hd, ?_, run_frame_and_swap.2 _ _ _ hc hd⟩
  exact run_frame_and_swap.1 _ _ _ (by decide +kernel)

end Call

end AbiConformance
