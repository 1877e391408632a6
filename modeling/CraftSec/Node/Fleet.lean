/-
The keys of all nodes together.  Programs are given keys, rotated, frozen and
migrated on every node; what this amounts to is a book with one key for each
program, and a session of enough nodes signs under the key in the book.
-/
import CraftSec.Dkg.Invariant
import CraftSec.Lib.Simulation
import CraftSec.Node.Node

open scoped Polynomial

namespace CraftSec

section Book

/-- A key and the number of signers it takes. -/
structure BookKey (P : Type) where
  key : P
  threshold : ℕ

/-- The keys that programs sign under: their own or the fallback, unless they
are frozen. -/
structure KeyBook (P : Type) where
  fallback : BookKey P
  programs : String → Option (BookKey P)
  frozen : Finset String

namespace KeyBook

variable {P : Type}

def lookup (book : KeyBook P) (programCid : String) : BookKey P :=
  (book.programs programCid).getD book.fallback

def assign (book : KeyBook P) (programCid : String) (entry : BookKey P) :
    KeyBook P :=
  { book with
    programs := Function.update book.programs programCid (some entry) }

def freeze (book : KeyBook P) (programCid : String) : KeyBook P :=
  { book with frozen := insert programCid book.frozen }

@[simp]
theorem lookup_assign (book : KeyBook P) (programCid other : String)
    (entry : BookKey P) :
    (book.assign programCid entry).lookup other =
      if other = programCid then entry else book.lookup other := by
  by_cases hsame : other = programCid
  · simp [lookup, assign, hsame]
  · simp [lookup, assign, hsame]

@[simp]
theorem lookup_freeze (book : KeyBook P) (programCid other : String) :
    (book.freeze programCid).lookup other = book.lookup other := rfl

end KeyBook

end Book

/-- What is done on every node of a fleet: a program is given a generated or a
derived key, its shares are rotated, or it is frozen or migrated. -/
inductive FleetOp where
  | generate (programCid : String) (config : ThresholdConfig) (rng : Rng)
  | derive (programCid seed : String) (config : ThresholdConfig)
  | rotate (programCid : String) (newConfig : ThresholdConfig) (rng : Rng)
  | freeze (programCid : String)
  | migrate (oldCid newCid : String)

section Fleet

variable {E P : Type}

/-- Give every node its share for the program. -/
def installShares (programCid : String) (nodes : List (CraftSecNode E P))
    (shares : List (KeyShare P)) : List (CraftSecNode E P) :=
  nodes.mapIdx fun i node =>
    match shares[i]? with
    | some share => node.registerKey programCid share
    | none => node

/-- The nodes' shares for a program. -/
def programShares (nodes : List (CraftSecNode E P)) (programCid : String) :
    List (KeyShare P) :=
  nodes.map fun node => node.getKeyShare programCid

theorem getElem?_installShares (programCid : String)
    (nodes : List (CraftSecNode E P)) {shares : List (KeyShare P)}
    (hlength : shares.length = nodes.length) (i : ℕ) :
    (installShares programCid nodes shares)[i]? =
      (nodes[i]?.bind fun node => shares[i]?.map fun share =>
        node.registerKey programCid share) := by
  rw [installShares, List.getElem?_mapIdx]
  by_cases hi : i < nodes.length
  · have hi' : i < shares.length := by omega
    simp [List.getElem?_eq_getElem hi, List.getElem?_eq_getElem hi']
  · have hnone := List.getElem?_eq_none (Nat.le_of_not_lt hi)
    simp [hnone]

theorem programShares_installShares (programCid other : String)
    (nodes : List (CraftSecNode E P)) {shares : List (KeyShare P)}
    (hlength : shares.length = nodes.length) :
    programShares (installShares programCid nodes shares) other =
      if other = programCid then shares else programShares nodes other := by
  apply List.ext_getElem?
  intro i
  rw [programShares, List.getElem?_map,
    getElem?_installShares programCid nodes hlength]
  by_cases hi : i < nodes.length
  · have hi' : i < shares.length := by omega
    by_cases hsame : other = programCid
    · simp [hsame, List.getElem?_eq_getElem hi, List.getElem?_eq_getElem hi',
        CraftSecNode.registerKey, CraftSecNode.getKeyShare]
    · simp [hsame, programShares, List.getElem?_eq_getElem hi,
        List.getElem?_eq_getElem hi', CraftSecNode.registerKey,
        CraftSecNode.getKeyShare]
  · have hnone := List.getElem?_eq_none (Nat.le_of_not_lt hi)
    have hnone' : shares[i]? = none :=
      List.getElem?_eq_none (by omega)
    by_cases hsame : other = programCid
    · simp [hsame, hnone, hnone']
    · simp [hsame, programShares, hnone]

theorem map_registry_installShares (programCid : String)
    (nodes : List (CraftSecNode E P)) {shares : List (KeyShare P)}
    (hlength : shares.length = nodes.length) :
    (installShares programCid nodes shares).map CraftSecNode.registry =
      nodes.map CraftSecNode.registry := by
  apply List.ext_getElem?
  intro i
  rw [List.getElem?_map, List.getElem?_map,
    getElem?_installShares programCid nodes hlength]
  by_cases hi : i < nodes.length
  · have hi' : i < shares.length := by omega
    simp [List.getElem?_eq_getElem hi, List.getElem?_eq_getElem hi',
      CraftSecNode.registerKey]
  · have hnone := List.getElem?_eq_none (Nat.le_of_not_lt hi)
    simp [hnone]

theorem frozenPrograms_installShares {programCid : String}
    {nodes : List (CraftSecNode E P)} {shares : List (KeyShare P)}
    {frozen : Finset String}
    (hfrozen : ∀ node ∈ nodes, node.frozenPrograms = frozen) :
    ∀ node ∈ installShares programCid nodes shares,
      node.frozenPrograms = frozen := by
  intro node hnode
  obtain ⟨i, hi, rfl⟩ := List.mem_mapIdx.mp hnode
  have hold := hfrozen nodes[i] (List.getElem_mem hi)
  split
  · exact hold
  · exact hold

variable [EdwardsGroup P] [Sha512] [DecidableEq P]

def FleetOp.perform (nodes : List (CraftSecNode E P)) :
    FleetOp → Outcome Unit × List (CraftSecNode E P)
  | .generate programCid config rng =>
      match runDkg config rng with
      | .error abort => (.error abort, nodes)
      | .ok (shares, _) => (.ok ⟨⟩, installShares programCid nodes shares)
  | .derive programCid seed config =>
      match deriveKey programCid seed config with
      | .error abort => (.error abort, nodes)
      | .ok (_, shares) => (.ok ⟨⟩, installShares programCid nodes shares)
  | .rotate programCid newConfig rng =>
      match rotateShares (programShares nodes programCid) newConfig rng with
      | .error abort => (.error abort, nodes)
      | .ok (shares, _) => (.ok ⟨⟩, installShares programCid nodes shares)
  | .freeze programCid =>
      (.ok ⟨⟩, nodes.map fun node => node.freezeProgram programCid)
  | .migrate oldCid newCid =>
      (.ok ⟨⟩, nodes.map fun node => node.migrateProgram oldCid newCid)

/-- A fleet of `count` nodes is given keys for as many participants, and no
threshold is zero. -/
def FleetOp.Proper (count : ℕ) : FleetOp → Prop
  | .generate _ config _ => 1 ≤ config.threshold.toNat ∧
      config.total.toNat = count
  | .derive _ _ config => 1 ≤ config.threshold.toNat ∧
      config.total.toNat = count
  | .rotate _ newConfig _ => 1 ≤ newConfig.threshold.toNat
  | .freeze _ => True
  | .migrate _ _ => True

/-- The key that a dealing announces. -/
def announcedKey (shares : List (KeyShare P)) : P :=
  (shares.head?.map KeyShare.groupPublicKey).getD (basepointMul 0)

/-- What the operation is for the book.  A rotation keeps the key, and raises
the number of signers if it is to a higher threshold. -/
def KeyBook.step (book : KeyBook P) : FleetOp → Unit × KeyBook P
  | .generate programCid config rng =>
      (⟨⟩, book.assign programCid
        ⟨match runDkg (P := P) config rng with
          | .ok (shares, _) => announcedKey shares
          | .error _ => basepointMul 0, config.threshold.toNat⟩)
  | .derive programCid seed config =>
      (⟨⟩, book.assign programCid
        ⟨match deriveKey (P := P) programCid seed config with
          | .ok (key, _) => key
          | .error _ => basepointMul 0, config.threshold.toNat⟩)
  | .rotate programCid newConfig _ =>
      (⟨⟩, book.assign programCid
        ⟨(book.lookup programCid).key,
          max (book.lookup programCid).threshold newConfig.threshold.toNat⟩)
  | .freeze programCid => (⟨⟩, book.freeze programCid)
  | .migrate oldCid newCid =>
      (⟨⟩, (book.assign newCid (book.lookup oldCid)).freeze oldCid)

/-- For each program the nodes share the key in the book. -/
structure Keeps (registries : List E) (nodes : List (CraftSecNode E P))
    (book : KeyBook P) : Prop where
  shares : ∀ programCid, ∃ F : Scalar[X],
    F.degree < (book.lookup programCid).threshold ∧
      IsSharing F (programShares nodes programCid) ∧
      (book.lookup programCid).key = basepointMul (F.eval 0)
  frozen : ∀ node ∈ nodes, node.frozenPrograms = book.frozen
  registries_eq : nodes.map CraftSecNode.registry = registries
  nonempty : nodes ≠ []

variable {registries : List E} {nodes : List (CraftSecNode E P)}
  {book : KeyBook P}

omit [Sha512] [DecidableEq P] in
theorem Keeps.length_eq (hkeeps : Keeps registries nodes book) :
    nodes.length = registries.length := by
  rw [← hkeeps.registries_eq, List.length_map]

omit [Sha512] [DecidableEq P] in
/-- A program may be given the shares of any polynomial. -/
theorem Keeps.installShares (hkeeps : Keeps registries nodes book)
    {shares : List (KeyShare P)} (hlength : shares.length = nodes.length)
    {F : Scalar[X]} (hsharing : IsSharing F shares) {entry : BookKey P}
    (hdegree : F.degree < entry.threshold)
    (hkey : entry.key = basepointMul (F.eval 0)) (programCid : String) :
    Keeps registries (installShares programCid nodes shares)
      (book.assign programCid entry) where
  shares := by
    intro other
    rw [programShares_installShares programCid other nodes hlength,
      KeyBook.lookup_assign]
    by_cases hsame : other = programCid
    · rw [if_pos hsame, if_pos hsame]
      exact ⟨F, hdegree, hsharing, hkey⟩
    · rw [if_neg hsame, if_neg hsame]
      exact hkeeps.shares other
  frozen := frozenPrograms_installShares hkeeps.frozen
  registries_eq := by
    rw [map_registry_installShares programCid nodes hlength]
    exact hkeeps.registries_eq
  nonempty := by
    rw [← List.length_pos_iff, CraftSec.installShares, List.length_mapIdx,
      List.length_pos_iff]
    exact hkeeps.nonempty

omit [Sha512] [DecidableEq P] in
/-- Nodes may be changed alike, as long as their shares and what they have
frozen follow the book. -/
theorem Keeps.map (hkeeps : Keeps registries nodes book)
    {change : CraftSecNode E P → CraftSecNode E P} {changed : KeyBook P}
    (hshares : ∀ programCid, ∃ source,
      changed.lookup programCid = book.lookup source ∧
      ∀ node, (change node).getKeyShare programCid = node.getKeyShare source)
    (hfrozen : ∀ node : CraftSecNode E P, node.frozenPrograms = book.frozen →
      (change node).frozenPrograms = changed.frozen)
    (hregistry : ∀ node, (change node).registry = node.registry) :
    Keeps registries (nodes.map change) changed where
  shares := by
    intro programCid
    obtain ⟨source, hlookup, hsame⟩ := hshares programCid
    have hmap : programShares (nodes.map change) programCid =
        programShares nodes source := by
      rw [programShares, programShares, List.map_map]
      exact List.map_congr_left fun node _ => hsame node
    rw [hmap, hlookup]
    exact hkeeps.shares source
  frozen := by
    intro node hnode
    obtain ⟨old, hold, rfl⟩ := List.mem_map.mp hnode
    exact hfrozen old (hkeeps.frozen old hold)
  registries_eq := by
    rw [List.map_map, ← hkeeps.registries_eq]
    exact List.map_congr_left fun node _ => hregistry node
  nonempty := by
    simp [hkeeps.nonempty]

omit [EdwardsGroup P] [Sha512] [DecidableEq P] in
theorem getKeyShare_registerKey (node : CraftSecNode E P)
    (programCid other : String) (keyShare : KeyShare P) :
    (node.registerKey programCid keyShare).getKeyShare other =
      if other = programCid then keyShare else node.getKeyShare other := by
  by_cases hsame : other = programCid
  · simp [CraftSecNode.registerKey, CraftSecNode.getKeyShare, hsame]
  · simp [CraftSecNode.registerKey, CraftSecNode.getKeyShare, hsame]

/-- The step lemma: a proper operation succeeds, and the nodes share the keys
in the book that the operation leaves. -/
theorem Keeps.perform (hkeeps : Keeps registries nodes book) {op : FleetOp}
    (hproper : op.Proper registries.length) :
    (op.perform nodes).1 = .ok ⟨⟩ ∧
      Keeps registries (op.perform nodes).2 (book.step op).2 := by
  cases op with
  | generate programCid config rng =>
      obtain ⟨hpositive, htotal⟩ := hproper
      have hrun := runDkg_eq_ok (P := P) hpositive rng
      have hlength : (shareVector (P := P)
          (combined (dkgPolynomials config rng).1)
            config.total.toNat).length = nodes.length := by
        rw [shareVector_length, htotal, hkeeps.length_eq]
      have hsharing := isSharing_shareVector (P := P)
        (combined (dkgPolynomials config rng).1) config.total.toNat_lt
      simp only [FleetOp.perform, KeyBook.step, hrun]
      refine ⟨trivial, hkeeps.installShares hlength hsharing ?_ ?_ programCid⟩
      · exact degree_combined_lt fun poly hpoly =>
          dkgPolynomials_length_coefficients hpositive hpoly
      · have hne : shareVector (P := P)
            (combined (dkgPolynomials config rng).1) config.total.toNat ≠
              [] := by
          rw [← List.length_pos_iff, hlength, List.length_pos_iff]
          exact hkeeps.nonempty
        rw [announcedKey, List.head?_eq_some_head hne]
        exact hsharing.groupPublicKey_eq _ (List.head_mem hne)
  | derive programCid seed config =>
      obtain ⟨hpositive, htotal⟩ := hproper
      have hderive := deriveKey_eq_ok (P := P) programCid seed hpositive
      simp only [FleetOp.perform, KeyBook.step, hderive]
      refine ⟨trivial, hkeeps.installShares ?_
        (isSharing_shareVector _ config.total.toNat_lt) ?_ rfl programCid⟩
      · rw [shareVector_length, htotal, hkeeps.length_eq]
      · exact degree_derivePolynomial_lt _ _ _
  | rotate programCid newConfig rng =>
      obtain ⟨F, hdegree, hsharing, hkey⟩ := hkeeps.shares programCid
      have hne : programShares nodes programCid ≠ [] := by
        rw [programShares]
        simp [hkeeps.nonempty]
      obtain ⟨F', shares, rng', hrotate, hlength, hsharing', hzero, hsub⟩ :=
        hsharing.rotateShares hne hproper rng
      simp only [FleetOp.perform, KeyBook.step, hrotate]
      refine ⟨trivial, hkeeps.installShares ?_ hsharing'
        (degree_lt_max_of_sub hdegree hsub) ?_ programCid⟩
      · rw [hlength, programShares, List.length_map]
      · rw [hzero]
        exact hkey
  | freeze programCid =>
      refine ⟨rfl, hkeeps.map (fun other => ⟨other, rfl, fun _ => rfl⟩) ?_
        fun _ => rfl⟩
      intro node hfrozen
      rw [CraftSecNode.freezeProgram, hfrozen]
      rfl
  | migrate oldCid newCid =>
      refine ⟨rfl, hkeeps.map ?_ ?_ fun _ => rfl⟩
      · intro other
        by_cases hnew : other = newCid
        · refine ⟨oldCid, by simp [KeyBook.step, hnew], fun node => ?_⟩
          rw [CraftSecNode.migrateProgram]
          exact (getKeyShare_registerKey node newCid other _).trans
            (if_pos hnew)
        · refine ⟨other, by simp [KeyBook.step, hnew], fun node => ?_⟩
          rw [CraftSecNode.migrateProgram]
          exact (getKeyShare_registerKey node newCid other _).trans
            (if_neg hnew)
      · intro node hfrozen
        rw [CraftSecNode.migrateProgram, CraftSecNode.freezeProgram,
          CraftSecNode.registerKey, hfrozen]
        rfl

theorem keeps_refines : Simulation.Refines FleetOp.perform KeyBook.step
    (Keeps (P := P) registries) (fun outcome _ => outcome = .ok ⟨⟩)
    (FleetOp.Proper registries.length) where
  answer hkeeps hproper := (hkeeps.perform hproper).1
  next hkeeps hproper := (hkeeps.perform hproper).2

end Fleet

end CraftSec
