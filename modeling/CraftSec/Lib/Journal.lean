/-
Stores of independent cells.  What is posted under a key acts on the cell of
that key only, so a cell is its own postings, replayed, and postings under
different keys may change places.
-/
import Mathlib.Data.List.Basic
import Mathlib.Logic.Function.Basic

namespace Journal

variable {K Q S : Type}

/-- What a posting makes of a cell, and of a cell that is not there yet. -/
structure Cell (Q S : Type) where
  act : Q → S → S
  create : Q → Option S

/-- The postings under one key. -/
def own [DecidableEq K] (key : K) (entries : List (K × Q)) : List Q :=
  entries.filterMap fun entry =>
    if entry.1 = key then some entry.2 else none

section Own

variable [DecidableEq K]

theorem own_cons (key : K) (entry : K × Q) (rest : List (K × Q)) :
    own key (entry :: rest) =
      if entry.1 = key then entry.2 :: own key rest else own key rest := by
  rw [own, List.filterMap_cons]
  by_cases hkey : entry.1 = key
  · rw [if_pos hkey, if_pos hkey]
    rfl
  · rw [if_neg hkey, if_neg hkey]
    rfl

theorem mem_own {key : K} {entries : List (K × Q)} {q : Q} :
    q ∈ own key entries ↔ (key, q) ∈ entries := by
  rw [own, List.mem_filterMap]
  constructor
  · rintro ⟨⟨key', q'⟩, hmem, hown⟩
    by_cases hkey : key' = key
    · rw [if_pos hkey] at hown
      rwa [← hkey, ← Option.some.inj hown]
    · rw [if_neg hkey] at hown
      cases hown
  · intro hmem
    exact ⟨(key, q), hmem, if_pos rfl⟩

theorem own_eq_nil {key : K} {entries : List (K × Q)}
    (habsent : key ∉ entries.map Prod.fst) : own key entries = [] := by
  rw [own, List.filterMap_eq_nil_iff]
  intro entry hmem
  rw [if_neg]
  rintro rfl
  exact habsent (List.mem_map_of_mem hmem)

end Own

namespace Cell

variable (cell : Cell Q S)

/-- A posting to a cell that may be there. -/
def receive (state : Option S) (q : Q) : Option S :=
  match state with
  | some s => some (cell.act q s)
  | none => cell.create q

/-- Postings to one cell, in turn. -/
def replay (state : Option S) (qs : List Q) : Option S :=
  qs.foldl cell.receive state

variable [DecidableEq K]

/-- A posting to the store. -/
def post (store : K → Option S) (entry : K × Q) : K → Option S :=
  Function.update store entry.1 (cell.receive (store entry.1) entry.2)

def postAll (store : K → Option S) (entries : List (K × Q)) : K → Option S :=
  entries.foldl cell.post store

theorem postAll_append (store : K → Option S) (left right : List (K × Q)) :
    cell.postAll store (left ++ right) =
      cell.postAll (cell.postAll store left) right :=
  List.foldl_append

/-- A cell is its own postings, replayed. -/
theorem postAll_apply (store : K → Option S) (entries : List (K × Q))
    (key : K) : cell.postAll store entries key =
      cell.replay (store key) (own key entries) := by
  induction entries generalizing store with
  | nil => rfl
  | cons entry rest ih =>
      have hrest := ih (cell.post store entry)
      rw [own_cons]
      by_cases hkey : entry.1 = key
      · subst hkey
        rw [post, Function.update_self] at hrest
        rw [if_pos rfl]
        exact hrest
      · rw [post, Function.update_of_ne (Ne.symm hkey)] at hrest
        rw [if_neg hkey]
        exact hrest

/-- A store and its postings agree with another store where the two agreed
before. -/
theorem postAll_congr {store store' : K → Option S} {key : K}
    (hsame : store key = store' key) (entries : List (K × Q)) :
    cell.postAll store entries key = cell.postAll store' entries key := by
  rw [postAll_apply, postAll_apply, hsame]

/-- Cells that nothing is posted to stay as they are. -/
theorem postAll_of_not_mem (store : K → Option S) {entries : List (K × Q)}
    {key : K} (habsent : key ∉ entries.map Prod.fst) :
    cell.postAll store entries key = store key := by
  rw [postAll_apply, own_eq_nil habsent]
  rfl

/-- Postings under different keys may change places. -/
theorem postAll_comm (store : K → Option S) {left right : List (K × Q)}
    (hdisjoint : ∀ key ∈ left.map Prod.fst, key ∉ right.map Prod.fst) :
    cell.postAll (cell.postAll store left) right =
      cell.postAll (cell.postAll store right) left := by
  funext key
  by_cases hleft : key ∈ left.map Prod.fst
  · rw [cell.postAll_of_not_mem _ (hdisjoint key hleft),
      cell.postAll_congr (cell.postAll_of_not_mem store (hdisjoint key hleft))]
  · rw [cell.postAll_of_not_mem (cell.postAll store right) hleft,
      cell.postAll_congr (cell.postAll_of_not_mem store hleft)]

/-- Groups of postings, no two of them under a common key, may be made in any
order. -/
theorem postAll_flatMap_perm {A : Type} {postings : A → List (K × Q)}
    {xs ys : List A} (hperm : xs.Perm ys)
    (hdisjoint : xs.Pairwise fun x y =>
      ∀ key ∈ (postings x).map Prod.fst, key ∉ (postings y).map Prod.fst)
    (store : K → Option S) :
    cell.postAll store (xs.flatMap postings) =
      cell.postAll store (ys.flatMap postings) := by
  induction hperm generalizing store with
  | nil => rfl
  | cons x _ ih =>
      rw [List.flatMap_cons, List.flatMap_cons, postAll_append, postAll_append]
      exact ih (List.pairwise_cons.mp hdisjoint).2 _
  | swap x y rest =>
      have hfirst := (List.pairwise_cons.mp hdisjoint).1 x List.mem_cons_self
      simp only [List.flatMap_cons, postAll_append]
      rw [cell.postAll_comm store hfirst]
  | trans hleft _ ihleft ihright =>
      have hsymm : ∀ {x y : A},
          (∀ key ∈ (postings x).map Prod.fst,
            key ∉ (postings y).map Prod.fst) →
          ∀ key ∈ (postings y).map Prod.fst,
            key ∉ (postings x).map Prod.fst :=
        fun hxy key hy hx => hxy key hx hy
      exact (ihleft hdisjoint store).trans
        (ihright ((hleft.pairwise_iff hsymm).mp hdisjoint) store)

/-- A cell is there if it was, or if a posting made it. -/
theorem isSome_replay (state : Option S) (qs : List Q) :
    (cell.replay state qs).isSome ↔
      state.isSome ∨ ∃ q ∈ qs, (cell.create q).isSome := by
  induction qs generalizing state with
  | nil => simp [replay]
  | cons q rest ih =>
      have hrest := ih (cell.receive state q)
      rw [replay, List.foldl_cons]
      refine hrest.trans ?_
      cases state with
      | none => simp [receive]
      | some s => simp [receive]

end Cell

/-- A cell that keeps what was posted last. -/
def latest (Q : Type) : Cell Q Q where
  act q _ := q
  create q := some q

theorem latest_replay (state : Option Q) (qs : List Q) :
    (latest Q).replay state qs = qs.getLast?.or state := by
  induction qs generalizing state with
  | nil => rfl
  | cons q rest ih =>
      have hreceive : (latest Q).receive state q = some q := by
        cases state with
        | none => rfl
        | some s => rfl
      rw [Cell.replay, List.foldl_cons, hreceive]
      refine (ih (some q)).trans ?_
      rw [List.getLast?_cons]
      cases rest.getLast? with
      | none => rfl
      | some last => rfl

end Journal
