/-
Concatenations of entries that all have the same width.  The entries can be
read back from the end, so a text before them is ambiguous by whole entries
and in no other way.
-/
import Mathlib.Data.List.Basic

namespace FixedWidth

universe u v

variable {α : Type u} {β : Type v} {encode : α → List β} {width : ℕ}

theorem length_flatMap (hwidth : ∀ x, (encode x).length = width)
    (xs : List α) : (xs.flatMap encode).length = xs.length * width := by
  induction xs with
  | nil => simp
  | cons x xs ih =>
      rw [List.flatMap_cons, List.length_append, hwidth, ih, List.length_cons,
        Nat.succ_mul, Nat.add_comm]

/-- Equally many entries are determined by their concatenation. -/
theorem eq_of_flatMap_eq (hwidth : ∀ x, (encode x).length = width)
    (hinj : Function.Injective encode) {xs ys : List α}
    (hlength : xs.length = ys.length)
    (heq : xs.flatMap encode = ys.flatMap encode) : xs = ys := by
  induction xs generalizing ys with
  | nil => exact (List.eq_nil_of_length_eq_zero hlength.symm).symm
  | cons x xs ih =>
      cases ys with
      | nil => cases hlength
      | cons y ys =>
          rw [List.flatMap_cons, List.flatMap_cons] at heq
          obtain ⟨hhead, htail⟩ :=
            List.append_inj heq (by rw [hwidth, hwidth])
          rw [hinj hhead, ih (Nat.succ.inj hlength) htail]

/-- A text followed by at most as many entries as another text: the other
text's surplus entries stand at the end of this one. -/
theorem exists_of_append_flatMap_eq (hwidth : ∀ x, (encode x).length = width)
    (hinj : Function.Injective encode) {text text' : List β} {xs ys : List α}
    (hle : xs.length ≤ ys.length)
    (heq : text ++ xs.flatMap encode = text' ++ ys.flatMap encode) :
    ∃ moved, text = text' ++ moved.flatMap encode ∧ ys = moved ++ xs := by
  let moved := ys.take (ys.length - xs.length)
  let kept := ys.drop (ys.length - xs.length)
  have hsplit : ys = moved ++ kept := (List.take_append_drop _ ys).symm
  have hkept : xs.length = kept.length := by
    rw [List.length_drop]
    omega
  rw [hsplit, List.flatMap_append, ← List.append_assoc] at heq
  obtain ⟨htext, hentries⟩ := List.append_inj' heq
    (by rw [length_flatMap hwidth, length_flatMap hwidth, hkept])
  refine ⟨moved, htext, ?_⟩
  rw [eq_of_flatMap_eq hwidth hinj hkept hentries]
  exact hsplit

/-- The ambiguity of a text followed by entries: whole entries move from the
front of the list to the end of the text. -/
theorem append_flatMap_eq_iff (hwidth : ∀ x, (encode x).length = width)
    (hinj : Function.Injective encode) (text text' : List β) (xs ys : List α) :
    text ++ xs.flatMap encode = text' ++ ys.flatMap encode ↔
      ∃ moved, (text = text' ++ moved.flatMap encode ∧ ys = moved ++ xs) ∨
        (text' = text ++ moved.flatMap encode ∧ xs = moved ++ ys) := by
  constructor
  · intro heq
    rcases Nat.le_total xs.length ys.length with hle | hle
    · obtain ⟨moved, hmoved⟩ := exists_of_append_flatMap_eq hwidth hinj hle heq
      exact ⟨moved, Or.inl hmoved⟩
    · obtain ⟨moved, hmoved⟩ :=
        exists_of_append_flatMap_eq hwidth hinj hle heq.symm
      exact ⟨moved, Or.inr hmoved⟩
  · rintro ⟨moved, ⟨rfl, rfl⟩ | ⟨rfl, rfl⟩⟩
    · simp
    · simp

end FixedWidth
