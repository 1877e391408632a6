/-
Words that can be read off the front of a text.  A family of words is a prefix
code when a text that begins with one of them determines the word and what
follows it.  Words of one width are of this kind, and so are words closed by a
stop symbol, also when the stop symbol is escaped inside them.
-/
import Mathlib.Data.List.Basic

namespace PrefixCode

universe u v

variable {α : Type u} {β : Type v}

/-- A text that begins with a word determines the word and the rest. -/
def IsPrefixCode (encode : α → List β) : Prop :=
  ∀ x y rest rest', encode x ++ rest = encode y ++ rest' →
    x = y ∧ rest = rest'

theorem IsPrefixCode.injective {encode : α → List β}
    (hcode : IsPrefixCode encode) : Function.Injective encode := by
  intro x y heq
  exact (hcode x y [] [] (by rw [heq])).1

/-- Renaming the words' sources keeps a prefix code. -/
theorem IsPrefixCode.comp {γ : Type*} {encode : α → List β} {f : γ → α}
    (hcode : IsPrefixCode encode) (hinj : Function.Injective f) :
    IsPrefixCode fun x => encode (f x) := by
  intro x y rest rest' heq
  obtain ⟨hsame, hrest⟩ := hcode (f x) (f y) rest rest' heq
  exact ⟨hinj hsame, hrest⟩

/-- Distinct words whose length can be read off the text they begin. -/
theorem IsPrefixCode.of_length {encode : α → List β} (length : List β → ℕ)
    (hlength : ∀ x rest, length (encode x ++ rest) = (encode x).length)
    (hinj : Function.Injective encode) : IsPrefixCode encode := by
  intro x y rest rest' heq
  have hsame : (encode x).length = (encode y).length := by
    rw [← hlength x rest, heq, hlength]
  obtain ⟨hword, hrest⟩ := List.append_inj heq hsame
  exact ⟨hinj hword, hrest⟩

/-- Two words, each followed by a symbol that occurs in neither. -/
theorem eq_of_append_stop {p : β → Prop} {word word' rest rest' : List β}
    {stop stop' : β} (hword : ∀ b ∈ word, ¬ p b) (hword' : ∀ b ∈ word', ¬ p b)
    (hstop : p stop) (hstop' : p stop')
    (heq : word ++ stop :: rest = word' ++ stop' :: rest') :
    word = word' ∧ stop = stop' ∧ rest = rest' := by
  induction word generalizing word' with
  | nil =>
      cases word' with
      | nil =>
          obtain ⟨hhead, htail⟩ := List.cons.inj heq
          exact ⟨rfl, hhead, htail⟩
      | cons b word' =>
          obtain ⟨hhead, -⟩ := List.cons.inj heq
          exact absurd (hhead ▸ hstop) (hword' b List.mem_cons_self)
  | cons a word ih =>
      cases word' with
      | nil =>
          obtain ⟨hhead, -⟩ := List.cons.inj heq
          exact absurd (hhead ▸ hstop') (hword a List.mem_cons_self)
      | cons b word' =>
          obtain ⟨hhead, htail⟩ := List.cons.inj heq
          obtain ⟨hsame, hrest⟩ := ih
            (fun c hc => hword c (List.mem_cons_of_mem a hc))
            (fun c hc => hword' c (List.mem_cons_of_mem b hc)) htail
          exact ⟨by rw [hhead, hsame], hrest⟩

/-- Distinct words closed by a stop symbol that occurs in none of them. -/
theorem IsPrefixCode.of_stop {encode : α → List β} {stop : β}
    (hinj : Function.Injective encode) (hstop : ∀ x, stop ∉ encode x) :
    IsPrefixCode fun x => encode x ++ [stop] := by
  intro x y rest rest' heq
  rw [List.append_assoc, List.append_assoc] at heq
  obtain ⟨hword, -, hrest⟩ := eq_of_append_stop (p := fun b => b = stop)
    (fun b hb hsame => hstop x (hsame ▸ hb))
    (fun b hb hsame => hstop y (hsame ▸ hb)) rfl rfl heq
  exact ⟨hinj hword, hrest⟩

/-- Symbols escaped one by one, so that no escaped symbol begins with the stop
symbol that closes the text. -/
theorem IsPrefixCode.flatMap_of_stop {escape : α → List β} {stop : β}
    (hcode : IsPrefixCode escape)
    (hstop : ∀ x, ∃ first tail, escape x = first :: tail ∧ first ≠ stop) :
    IsPrefixCode fun xs : List α => xs.flatMap escape ++ [stop] := by
  have hclosed : ∀ x text rest, stop :: rest ≠ escape x ++ text := by
    intro x text rest heq
    obtain ⟨first, tail, hescape, hfirst⟩ := hstop x
    rw [hescape] at heq
    exact hfirst (List.cons.inj heq).1.symm
  intro xs
  induction xs with
  | nil =>
      intro ys rest rest' heq
      cases ys with
      | nil => exact ⟨rfl, (List.cons.inj heq).2⟩
      | cons y ys =>
          simp only [List.flatMap_nil, List.flatMap_cons, List.nil_append,
            List.append_assoc, List.cons_append] at heq
          exact absurd heq (hclosed y _ rest)
  | cons x xs ih =>
      intro ys rest rest' heq
      cases ys with
      | nil =>
          simp only [List.flatMap_nil, List.flatMap_cons, List.nil_append,
            List.append_assoc, List.cons_append] at heq
          exact absurd heq.symm (hclosed x _ rest')
      | cons y ys =>
          simp only [List.flatMap_cons, List.append_assoc] at heq
          obtain ⟨hhead, htail⟩ := hcode x y _ _ heq
          simp only [← List.append_assoc] at htail
          obtain ⟨hsame, hrest⟩ := ih ys rest rest' htail
          exact ⟨by rw [hhead, hsame], hrest⟩

end PrefixCode
