import AbiConformance.Proofs.Matrix.Acceptance

namespace AbiConformance

section Numerals

def readNumbers : Option Nat → List Char → List Nat
  | pending, [] => pending.toList
  | pending, c :: cs =>
    if c.isDigit then readNumbers (some (10 * pending.getD 0 + (c.toNat - '0'.toNat))) cs
    else pending.toList ++ readNumbers none cs

def numbersIn (text : String) : List Nat := readNumbers none text.toList

def isWording (text : String) : Bool :=
  !text.toList.isEmpty && text.toList.all fun c => !c.isDigit

theorem readNumbers_digits {n : Nat} {ds cs : List Char} (h : ∀ d ∈ ds, d.isDigit = true) :
    readNumbers (some n) (ds ++ cs) = readNumbers (some (Nat.ofDigitChars 10 ds n)) cs := by
  induction ds generalizing n with
  | nil => rfl
  | cons d ds ih =>
    obtain ⟨hd, hds⟩ := List.forall_mem_cons.mp h
    rw [List.cons_append, readNumbers, if_pos hd, ih hds, Nat.ofDigitChars_cons]
    rfl

theorem readNumbers_of_digit {d : Char} {cs : List Char} (h : d.isDigit = true) :
    readNumbers none (d :: cs) = readNumbers (some 0) (d :: cs) := by
  rw [readNumbers, readNumbers, if_pos h, if_pos h]
  rfl

theorem readNumbers_toString (n : Nat) (cs : List Char) :
    readNumbers none ((toString n).toList ++ cs) = readNumbers (some n) cs := by
  have hdigits : ∀ d ∈ Nat.toDigits 10 n, d.isDigit = true :=
    fun d => Nat.isDigit_of_mem_toDigits (by decide) (by decide)
  have hvalue : Nat.ofDigitChars 10 (Nat.toDigits 10 n) 0 = n :=
    Nat.ofDigitChars_toDigits (by decide) (by decide)
  have hread : readNumbers (some 0) (Nat.toDigits 10 n ++ cs) = readNumbers (some n) cs := by
    rw [readNumbers_digits hdigits, hvalue]
  rw [Nat.toString_eq_repr, Nat.toList_repr, ← hread]
  cases hds : Nat.toDigits 10 n with
  | nil => exact absurd hds Nat.toDigits_ne_nil
  | cons d ds => exact readNumbers_of_digit (hdigits d (by simp [hds]))

theorem readNumbers_nondigits (pending : Option Nat) {ws cs : List Char} (hne : ws ≠ [])
    (h : ∀ w ∈ ws, w.isDigit = false) :
    readNumbers pending (ws ++ cs) = pending.toList ++ readNumbers none cs := by
  induction ws generalizing pending with
  | nil => exact absurd rfl hne
  | cons w ws ih =>
    obtain ⟨hw, hws⟩ := List.forall_mem_cons.mp h
    rw [List.cons_append, readNumbers, hw, if_neg Bool.false_ne_true]
    cases ws with
    | nil => rfl
    | cons v vs =>
      rw [ih none (List.cons_ne_nil v vs) hws]
      rfl

theorem readNumbers_wording {words : String} (h : isWording words = true) (pending : Option Nat)
    (cs : List Char) :
    readNumbers pending (words.toList ++ cs) = pending.toList ++ readNumbers none cs := by
  simp only [isWording, Bool.and_eq_true, Bool.not_eq_true', List.isEmpty_eq_false_iff,
    List.all_eq_true] at h
  exact readNumbers_nondigits pending h.1 h.2

theorem readNumbers_number {words : String} (h : isWording words = true) (n : Nat)
    (cs : List Char) :
    readNumbers none ((toString n).toList ++ (words.toList ++ cs)) = n :: readNumbers none cs := by
  rw [readNumbers_toString, readNumbers_wording h]
  rfl

theorem readNumbers_last (n : Nat) : readNumbers none (toString n).toList = [n] := by
  rw [← List.append_nil (toString n).toList, readNumbers_toString]
  rfl

end Numerals

theorem saturate_of_fits {n : Nat} (h : n < addressSpace) : saturate n = n := by
  rw [saturate]
  omega

namespace LayoutError

def figures : LayoutError → List Nat
  | shapeMismatch s found => [s.rows, s.cols, saturate (s.rows * s.cols), found]
  | raggedRow row expected found => [row, found, expected]
  | shapeOverflow s => [s.rows, s.cols]

theorem numbersIn_message (e : LayoutError) : numbersIn e.message = e.figures := by
  cases e with
  | shapeMismatch s found =>
    simp only [numbersIn, message, String.toList_append, List.append_assoc]
    rw [readNumbers_number rfl, readNumbers_number rfl, readNumbers_number rfl, readNumbers_last]
    rfl
  | raggedRow row expected found =>
    simp only [numbersIn, message, String.toList_append, List.append_assoc]
    rw [readNumbers_wording rfl, readNumbers_number rfl, readNumbers_number rfl, readNumbers_last]
    rfl
  | shapeOverflow s =>
    simp only [numbersIn, message, String.toList_append, List.append_assoc]
    rw [readNumbers_number rfl, readNumbers_toString, ← List.append_nil (String.toList _),
      readNumbers_wording rfl]
    rfl

def ofFigures? : List Nat → Option LayoutError
  | [rows, cols, _, found] => some (shapeMismatch ⟨rows, cols⟩ found)
  | [row, found, expected] => some (raggedRow row expected found)
  | [rows, cols] => some (shapeOverflow ⟨rows, cols⟩)
  | _ => none

theorem ofFigures?_numbersIn_message (e : LayoutError) :
    ofFigures? (numbersIn e.message) = some e := by
  rw [numbersIn_message]
  cases e <;> rfl

theorem message_injective : Function.Injective message := by
  intro e e' h
  have hread := ofFigures?_numbersIn_message e
  rw [h, ofFigures?_numbersIn_message] at hread
  exact (Option.some.inj hread).symm

end LayoutError

theorem error_texts_identify_and_tell :
    Function.Injective LayoutError.message ∧
    (∀ {α : Type} (s : Shape) (data : Array α) (e : LayoutError),
      RowMajor.ofArray s data = .error e →
      e = .shapeMismatch s data.size ∧
        numbersIn e.message = [s.rows, s.cols, s.rows * s.cols, data.size] ∧
        s.rows * s.cols < addressSpace ∧ s.rows * s.cols ≠ data.size ∨
      e = .shapeOverflow s ∧ numbersIn e.message = [s.rows, s.cols] ∧
        addressSpace ≤ s.rows * s.cols) ∧
    ∀ {α : Type} (cols : Nat) (rows : List (List α)) (e : LayoutError),
      RowSlices.ofRows cols rows = .error e →
      ∃ k, ∃ h : k < rows.length, e = .raggedRow k cols rows[k].length ∧
        numbersIn e.message = [k, rows[k].length, cols] ∧ cols ≠ rows[k].length := by
  refine ⟨LayoutError.message_injective, ?_, ?_⟩
  · intro α s data e h
    rcases RowMajor.ofArray_eq_error_iff.mp h with ⟨hover, rfl⟩ | ⟨hfits, hne, rfl⟩
    · exact Or.inr ⟨rfl, LayoutError.numbersIn_message _, hover⟩
    · refine Or.inl ⟨rfl, ?_, hfits, hne⟩
      rw [LayoutError.numbersIn_message, LayoutError.figures, saturate_of_fits hfits]
  · intro α cols rows e h
    obtain ⟨k, hk, hne, -, rfl⟩ := RowSlices.ofRows_eq_error_iff.mp h
    exact ⟨k, hk, rfl, LayoutError.numbersIn_message _, hne.symm⟩

theorem error_texts_identify_and_tell_largest :
    LayoutError.message (.shapeOverflow ⟨1, 23⟩) ≠ LayoutError.message (.shapeOverflow ⟨12, 3⟩) ∧
      RowMajor.ofArray ⟨2 ^ 32 - 1, 2 ^ 32 + 1⟩ (#[1, 2] : Array Int16) =
        .error (.shapeMismatch ⟨2 ^ 32 - 1, 2 ^ 32 + 1⟩ 2) ∧
      numbersIn (LayoutError.message (.shapeMismatch ⟨2 ^ 32 - 1, 2 ^ 32 + 1⟩ 2)) =
        [2 ^ 32 - 1, 2 ^ 32 + 1, 2 ^ 64 - 1, 2] ∧
      RowMajor.ofArray ⟨2 ^ 63, 2⟩ (#[] : Array Int16) = .error (.shapeOverflow ⟨2 ^ 63, 2⟩) ∧
      numbersIn (LayoutError.message (.shapeOverflow ⟨2 ^ 63, 2⟩)) = [2 ^ 63, 2] ∧
      RowSlices.ofRows 2 [[(1 : Int16), 2], [3], [4, 5, 6]] = .error (.raggedRow 1 2 1) ∧
      numbersIn (LayoutError.message (.raggedRow 1 2 1)) = [1, 1, 2] := by
  obtain ⟨hinjective, hflat, hrows⟩ := error_texts_identify_and_tell
  have hlargest : RowMajor.ofArray ⟨2 ^ 32 - 1, 2 ^ 32 + 1⟩ (#[1, 2] : Array Int16) =
      .error (.shapeMismatch ⟨2 ^ 32 - 1, 2 ^ 32 + 1⟩ 2) := rfl
  have hover : RowMajor.ofArray ⟨2 ^ 63, 2⟩ (#[] : Array Int16) =
      .error (.shapeOverflow ⟨2 ^ 63, 2⟩) := rfl
  have hragged : RowSlices.ofRows 2 [[(1 : Int16), 2], [3], [4, 5, 6]] =
      .error (.raggedRow 1 2 1) := rfl
  refine ⟨fun h => ?_, hlargest, ?_, hover, ?_, hragged, ?_⟩
  · exact absurd (hinjective h) (by decide)
  · rcases hflat _ _ _ hlargest with ⟨-, hnumbers, -⟩ | ⟨hkind, -⟩
    · exact hnumbers
    · cases hkind
  · rcases hflat _ _ _ hover with ⟨hkind, -⟩ | ⟨-, hnumbers, -⟩
    · cases hkind
    · exact hnumbers
  · obtain ⟨k, hk, hkind, hnumbers, -⟩ := hrows _ _ _ hragged
    cases hkind
    exact hnumbers

end AbiConformance
