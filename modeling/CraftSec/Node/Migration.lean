/-
Sequences of migrations on a node.  A program holds a key live when it resolves
to the key and is not frozen; a migration hands the key on exactly when its
target is not frozen and its source, or the target itself, is the live holder.
-/
import CraftSec.Dkg.Invariant
import CraftSec.Node.Node

namespace CraftSec

namespace CraftSecNode

variable {E P : Type}

/-- The program can still be attested for with the key share `k`. -/
def LiveHolder (node : CraftSecNode E P) (k : KeyShare P)
    (programCid : String) : Prop :=
  ¬ node.isFrozen programCid ∧ node.getKeyShare programCid = k

/-- Exactly one program resolves to the registered share `k`, and it is not
frozen. -/
structure HeldAlone (node : CraftSecNode E P) (k : KeyShare P)
    (holder : String) : Prop where
  registered : node.keyShares holder = some k
  not_frozen : ¬ node.isFrozen holder
  not_default : node.keyShare ≠ k
  alone : ∀ programCid, node.getKeyShare programCid = k →
    programCid = holder

/-- What a call of `migrate_program` for the share `k` is made with: the source
resolves to `k` and the target holds no other share. -/
def MayMigrate (node : CraftSecNode E P) (k : KeyShare P)
    (oldCid newCid : String) : Prop :=
  node.getKeyShare oldCid = k ∧ oldCid ≠ newCid ∧
    (node.keyShares newCid = none ∨ node.keyShares newCid = some k)

/-- The node, the source and the target of every migration in turn satisfy
`p`. -/
def AtEachMigration (p : CraftSecNode E P → String → String → Prop) :
    CraftSecNode E P → List (String × String) → Prop
  | _, [] => True
  | node, (oldCid, newCid) :: rest =>
      p node oldCid newCid ∧
        AtEachMigration p (node.migrateProgram oldCid newCid) rest

theorem getKeyShare_migrateProgram (node : CraftSecNode E P)
    (oldCid newCid programCid : String) :
    (node.migrateProgram oldCid newCid).getKeyShare programCid =
      if programCid = newCid then node.getKeyShare oldCid
      else node.getKeyShare programCid := by
  by_cases hnew : programCid = newCid
  · simp [migrateProgram, registerKey, freezeProgram, getKeyShare, hnew]
  · simp [migrateProgram, registerKey, freezeProgram, getKeyShare, hnew]

theorem isFrozen_migrateProgram (node : CraftSecNode E P)
    (oldCid newCid programCid : String) :
    (node.migrateProgram oldCid newCid).isFrozen programCid ↔
      programCid = oldCid ∨ node.isFrozen programCid := by
  simp [migrateProgram, registerKey, freezeProgram, isFrozen]

/-- A migration concerns the two programs it names. -/
theorem migrateProgram_of_ne (node : CraftSecNode E P)
    {oldCid newCid programCid : String} (hold : programCid ≠ oldCid)
    (hnew : programCid ≠ newCid) :
    (node.migrateProgram oldCid newCid).keyShares programCid =
        node.keyShares programCid ∧
      ((node.migrateProgram oldCid newCid).isFrozen programCid ↔
        node.isFrozen programCid) := by
  constructor
  · simp [migrateProgram, registerKey, freezeProgram, hnew]
  · simp [isFrozen_migrateProgram, hold]

/-- One migration: the target becomes the only live holder exactly when it is
not frozen and the old holder is its source or its target. -/
theorem liveHolder_migrateProgram_iff {node : CraftSecNode E P}
    {k : KeyShare P} {holder oldCid newCid : String}
    (hunique : ∀ programCid, node.LiveHolder k programCid ↔
      programCid = holder)
    (hmay : node.MayMigrate k oldCid newCid) :
    (∀ programCid,
        (node.migrateProgram oldCid newCid).LiveHolder k programCid ↔
          programCid = newCid) ↔
      ¬ node.isFrozen newCid ∧
        (¬ node.isFrozen oldCid ∨ node.getKeyShare newCid = k) := by
  obtain ⟨hresolves, hne, -⟩ := hmay
  have hafter : ∀ programCid,
      (node.migrateProgram oldCid newCid).LiveHolder k programCid ↔
        (programCid = newCid ∧ ¬ node.isFrozen newCid) ∨
          (programCid ≠ newCid ∧ programCid ≠ oldCid ∧
            programCid = holder) := by
    intro programCid
    rw [LiveHolder, isFrozen_migrateProgram, getKeyShare_migrateProgram]
    by_cases hnew : programCid = newCid
    · subst hnew
      simp [hresolves, Ne.symm hne]
    · rw [← hunique programCid, LiveHolder]
      simp [hnew, and_assoc]
  constructor
  · intro htarget
    have hnew : ¬ node.isFrozen newCid := by
      rcases (hafter newCid).mp ((htarget newCid).mpr rfl) with
        ⟨-, hlive⟩ | ⟨hself, -⟩
      · exact hlive
      · exact absurd rfl hself
    refine ⟨hnew, ?_⟩
    -- the old holder must have been named by the migration
    by_cases hholder : holder = newCid
    · exact Or.inr ((hunique newCid).mpr hholder.symm).2
    · by_cases hsource : holder = oldCid
      · exact Or.inl ((hunique oldCid).mpr hsource.symm).1
      · have hkept := (hafter holder).mpr (Or.inr ⟨hholder, hsource, rfl⟩)
        exact absurd ((htarget holder).mp hkept) hholder
  · rintro ⟨hnew, hnamed⟩ programCid
    have hholder : holder = oldCid ∨ holder = newCid := by
      rcases hnamed with hlive | hresolved
      · exact Or.inl ((hunique oldCid).mp ⟨hlive, hresolves⟩).symm
      · exact Or.inr ((hunique newCid).mp ⟨hnew, hresolved⟩).symm
    rw [hafter]
    constructor
    · rintro (⟨heq, -⟩ | ⟨hother, hother', rfl⟩)
      · exact heq
      · rcases hholder with rfl | rfl
        · exact absurd rfl hother'
        · exact absurd rfl hother
    · intro heq
      exact Or.inl ⟨heq, hnew⟩

/-- Programs that no migration of the sequence names keep their key and their
frozen status throughout. -/
theorem atEachMigration_frame {start node : CraftSecNode E P}
    {migrations rest : List (String × String)}
    (hsubset : ∀ migration ∈ rest, migration ∈ migrations)
    (hsame : ∀ programCid,
      (∀ migration ∈ migrations,
        programCid ≠ migration.1 ∧ programCid ≠ migration.2) →
      node.keyShares programCid = start.keyShares programCid ∧
        (node.isFrozen programCid ↔ start.isFrozen programCid)) :
    AtEachMigration (fun before oldCid newCid => ∀ programCid,
      (∀ migration ∈ migrations,
        programCid ≠ migration.1 ∧ programCid ≠ migration.2) →
      (before.migrateProgram oldCid newCid).keyShares programCid =
          start.keyShares programCid ∧
        ((before.migrateProgram oldCid newCid).isFrozen programCid ↔
          start.isFrozen programCid)) node rest := by
  induction rest generalizing node with
  | nil => trivial
  | cons migration rest ih =>
      obtain ⟨oldCid, newCid⟩ := migration
      have hhead : ∀ programCid,
          (∀ migration ∈ migrations,
            programCid ≠ migration.1 ∧ programCid ≠ migration.2) →
          (node.migrateProgram oldCid newCid).keyShares programCid =
              start.keyShares programCid ∧
            ((node.migrateProgram oldCid newCid).isFrozen programCid ↔
              start.isFrozen programCid) := by
        intro programCid hunnamed
        obtain ⟨hold, hnew⟩ := hunnamed _ (hsubset _ List.mem_cons_self)
        obtain ⟨hkey, hfrozen⟩ := node.migrateProgram_of_ne hold hnew
        obtain ⟨hkey', hfrozen'⟩ := hsame programCid hunnamed
        exact ⟨hkey.trans hkey', hfrozen.trans hfrozen'⟩
      exact ⟨hhead, ih
        (fun migration hmem => hsubset _ (List.mem_cons_of_mem _ hmem)) hhead⟩

/-- A whole sequence: the live holder is the last target throughout exactly
when every migration meets the condition in the state it is made in. -/
theorem atEachMigration_liveHolder_iff {node : CraftSecNode E P}
    {k : KeyShare P} {holder : String}
    (hunique : ∀ programCid, node.LiveHolder k programCid ↔
      programCid = holder) {migrations : List (String × String)}
    (hmay : AtEachMigration (fun before oldCid newCid =>
      before.MayMigrate k oldCid newCid) node migrations) :
    AtEachMigration (fun before oldCid newCid => ∀ programCid,
        (before.migrateProgram oldCid newCid).LiveHolder k programCid ↔
          programCid = newCid) node migrations ↔
      AtEachMigration (fun before oldCid newCid =>
        ¬ before.isFrozen newCid ∧
          (¬ before.isFrozen oldCid ∨ before.getKeyShare newCid = k))
        node migrations := by
  induction migrations generalizing node holder with
  | nil => exact Iff.rfl
  | cons migration rest ih =>
      obtain ⟨oldCid, newCid⟩ := migration
      obtain ⟨hhead, hrest⟩ := hmay
      have hstep := liveHolder_migrateProgram_iff hunique hhead
      constructor
      · rintro ⟨htarget, hlater⟩
        exact ⟨hstep.mp htarget, (ih htarget hrest).mp hlater⟩
      · rintro ⟨hcondition, hlater⟩
        have htarget := hstep.mpr hcondition
        exact ⟨htarget, (ih htarget hrest).mpr hlater⟩

theorem AtEachMigration.and {p q : CraftSecNode E P → String → String → Prop}
    {node : CraftSecNode E P} {migrations : List (String × String)} :
    AtEachMigration (fun before oldCid newCid =>
        p before oldCid newCid ∧ q before oldCid newCid) node migrations ↔
      AtEachMigration p node migrations ∧
        AtEachMigration q node migrations := by
  induction migrations generalizing node with
  | nil => simp [AtEachMigration]
  | cons migration rest ih =>
      simp only [AtEachMigration, ih]
      exact and_and_and_comm

/-- Starting from a share held by one live program, every migration makes its
target the one live holder and leaves unnamed programs alone, exactly when
every target is not frozen, and every source is not frozen or its target
already holds the share. -/
theorem migration_moves_key_iff {node : CraftSecNode E P} {k : KeyShare P}
    {holder : String} (hheld : node.HeldAlone k holder)
    {migrations : List (String × String)}
    (hmay : AtEachMigration (fun before oldCid newCid =>
      before.MayMigrate k oldCid newCid) node migrations) :
    AtEachMigration (fun before oldCid newCid =>
        (∀ programCid,
          (before.migrateProgram oldCid newCid).LiveHolder k programCid ↔
            programCid = newCid) ∧
        ∀ programCid,
          (∀ migration ∈ migrations,
            programCid ≠ migration.1 ∧ programCid ≠ migration.2) →
          (before.migrateProgram oldCid newCid).keyShares programCid =
              node.keyShares programCid ∧
            ((before.migrateProgram oldCid newCid).isFrozen programCid ↔
              node.isFrozen programCid)) node migrations ↔
      AtEachMigration (fun before oldCid newCid =>
        ¬ before.isFrozen newCid ∧
          (¬ before.isFrozen oldCid ∨ before.getKeyShare newCid = k))
        node migrations := by
  have hunique : ∀ programCid, node.LiveHolder k programCid ↔
      programCid = holder := by
    intro programCid
    constructor
    · rintro ⟨-, hresolves⟩
      exact hheld.alone programCid hresolves
    · rintro rfl
      refine ⟨hheld.not_frozen, ?_⟩
      rw [getKeyShare, hheld.registered]
      rfl
  have hframe := @atEachMigration_frame E P node node migrations migrations
    (fun _ hmem => hmem) fun _ _ => ⟨rfl, Iff.rfl⟩
  rw [AtEachMigration.and, atEachMigration_liveHolder_iff hunique hmay,
    and_iff_left hframe]

end CraftSecNode

/-- A node whose program `v1` has a share of its own. -/
def versionedNode : CraftSecNode ProgramRegistry ReferencePoint :=
  (CraftSecNode.new (linearShare 3 3 1) ProgramRegistry.new).registerKey "v1"
    (linearShare 5 7 1)

theorem versionedNode_heldAlone :
    versionedNode.HeldAlone (linearShare 5 7 1) "v1" where
  registered := rfl
  not_frozen := by decide
  not_default := by decide
  alone := by
    intro programCid hresolves
    by_contra hother
    have hdefault : versionedNode.getKeyShare programCid =
        linearShare 3 3 1 := by
      simp [versionedNode, CraftSecNode.getKeyShare, CraftSecNode.registerKey,
        CraftSecNode.new, hother]
    rw [hdefault] at hresolves
    revert hresolves
    decide

/-- The chain `v1`, `v2`, `v3` ends with `v3` as the one live holder. -/
theorem migration_chain :
    (((versionedNode.migrateProgram "v1" "v2").migrateProgram "v2"
        "v3").LiveHolder (linearShare 5 7 1) "v3") ∧
      (¬ ((versionedNode.migrateProgram "v1" "v2").migrateProgram "v2"
        "v3").LiveHolder (linearShare 5 7 1) "v1") ∧
      ¬ ((versionedNode.migrateProgram "v1" "v2").migrateProgram "v2"
        "v3").LiveHolder (linearShare 5 7 1) "v2" := by
  have hmay : CraftSecNode.AtEachMigration (fun before oldCid newCid =>
      before.MayMigrate (linearShare 5 7 1) oldCid newCid) versionedNode
      [("v1", "v2"), ("v2", "v3")] := by
    simp only [CraftSecNode.AtEachMigration, CraftSecNode.MayMigrate]
    decide
  have hmoves := (CraftSecNode.migration_moves_key_iff versionedNode_heldAlone
    hmay).mpr (by simp only [CraftSecNode.AtEachMigration]; decide)
  have hlast := hmoves.2.1.1
  exact ⟨(hlast "v3").mpr rfl, mt (hlast "v1").mp (by decide),
    mt (hlast "v2").mp (by decide)⟩

/-- Rolling back to `v1` leaves no live holder, and migrating from `v1` a
second time leaves two. -/
theorem migration_strands_and_duplicates :
    versionedNode.HeldAlone (linearShare 5 7 1) "v1" ∧
      CraftSecNode.AtEachMigration (fun before oldCid newCid =>
        before.MayMigrate (linearShare 5 7 1) oldCid newCid) versionedNode
        [("v1", "v2"), ("v2", "v1")] ∧
      (∀ programCid,
        ¬ ((versionedNode.migrateProgram "v1" "v2").migrateProgram "v2"
          "v1").LiveHolder (linearShare 5 7 1) programCid) ∧
      CraftSecNode.AtEachMigration (fun before oldCid newCid =>
        before.MayMigrate (linearShare 5 7 1) oldCid newCid) versionedNode
        [("v1", "v2"), ("v1", "v3")] ∧
      ∀ programCid ∈ ["v2", "v3"],
        ((versionedNode.migrateProgram "v1" "v2").migrateProgram "v1"
          "v3").LiveHolder (linearShare 5 7 1) programCid := by
  refine ⟨versionedNode_heldAlone, ?_, ?_, ?_, ?_⟩
  · simp only [CraftSecNode.AtEachMigration, CraftSecNode.MayMigrate]
    decide
  · rintro programCid ⟨hlive, hresolves⟩
    rw [CraftSecNode.isFrozen_migrateProgram,
      CraftSecNode.isFrozen_migrateProgram, not_or, not_or] at hlive
    obtain ⟨hsecond, hfirst, -⟩ := hlive
    rw [CraftSecNode.getKeyShare_migrateProgram, if_neg hfirst,
      CraftSecNode.getKeyShare_migrateProgram, if_neg hsecond] at hresolves
    exact hfirst (versionedNode_heldAlone.alone programCid hresolves)
  · simp only [CraftSecNode.AtEachMigration, CraftSecNode.MayMigrate]
    decide
  · simp only [CraftSecNode.LiveHolder]
    decide

end CraftSec
