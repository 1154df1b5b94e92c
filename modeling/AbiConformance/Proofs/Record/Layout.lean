import AbiConformance.Record.Layout

namespace AbiConformance

namespace Layout

theorem le_roundUp {align : Nat} (h : 0 < align) (n : Nat) : n ≤ roundUp n align := by
  have hlt : n + align - 1 < (n + align - 1) / align * align + align := Nat.lt_div_mul_add h
  simp only [roundUp]
  omega

theorem le_endFrom {members : List Member} (h : ∀ x ∈ members, 0 < x.extent.align)
    (cursor : Nat) : cursor ≤ endFrom cursor members := by
  induction members generalizing cursor with
  | nil => exact Nat.le_refl _
  | cons x rest ih =>
    obtain ⟨hx, hrest⟩ := List.forall_mem_cons.mp h
    have hround := le_roundUp hx cursor
    have hend := ih hrest (roundUp cursor x.extent.align + x.extent.size)
    simp only [endFrom]
    omega

theorem bounds_fieldsFrom {members : List Member} (h : ∀ x ∈ members, 0 < x.extent.align)
    (cursor : Nat) :
    ∀ f ∈ fieldsFrom cursor members,
      cursor ≤ f.offset ∧ f.offset + f.size ≤ endFrom cursor members := by
  induction members generalizing cursor with
  | nil => simp [fieldsFrom]
  | cons x rest ih =>
    obtain ⟨hx, hrest⟩ := List.forall_mem_cons.mp h
    have hround := le_roundUp hx cursor
    have hend := le_endFrom hrest (roundUp cursor x.extent.align + x.extent.size)
    simp only [fieldsFrom, endFrom, List.forall_mem_cons]
    refine ⟨⟨hround, hend⟩, ?_⟩
    intro f hf
    obtain ⟨hlow, hhigh⟩ := ih hrest _ f hf
    exact ⟨by omega, hhigh⟩

theorem sorted_fieldsFrom {members : List Member} (h : ∀ x ∈ members, 0 < x.extent.align)
    (cursor : Nat) :
    (fieldsFrom cursor members).Pairwise fun f g => f.offset + f.size ≤ g.offset := by
  induction members generalizing cursor with
  | nil => exact List.Pairwise.nil
  | cons x rest ih =>
    obtain ⟨hx, hrest⟩ := List.forall_mem_cons.mp h
    refine List.Pairwise.cons ?_ (ih hrest _)
    intro g hg
    exact (bounds_fieldsFrom hrest _ g hg).1

theorem le_foldl_align (members : List Member) (start : Nat) :
    start ≤ members.foldl (fun align x => max align x.extent.align) start := by
  induction members generalizing start with
  | nil => exact Nat.le_refl _
  | cons x rest ih =>
    have hrest := ih (max start x.extent.align)
    simp only [List.foldl_cons]
    omega

theorem align_pos (members : List Member) : 0 < (extent members).align :=
  le_foldl_align members 1

end Layout

namespace RecordKind

open Layout

theorem members_aligned (k : RecordKind) : ∀ x ∈ k.members, 0 < x.extent.align := by
  cases k <;> decide

theorem fields_sorted (k : RecordKind) :
    k.fields.Pairwise fun f g => f.offset + f.size ≤ g.offset :=
  sorted_fieldsFrom k.members_aligned 0

theorem fields_inside (k : RecordKind) {f : Field} (h : f ∈ k.fields) :
    f.offset + f.size ≤ k.size := by
  have hend := (bounds_fieldsFrom k.members_aligned 0 f h).2
  have hsize : endFrom 0 k.members ≤ k.size := le_roundUp (align_pos k.members) _
  omega

end RecordKind

end AbiConformance
