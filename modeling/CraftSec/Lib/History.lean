/-
Runs of a stateful service.  Every call is recorded as an event, newest first,
so the past of an event is the tail of the list behind it.  The second part is
about resources that some events hand out and other events use up.
-/
import Mathlib.Data.List.Infix

namespace History

universe u v w x y

section Runs

variable {S : Type u} {C : Type v} {E : Type w}

/-- A service's state and the events so far, newest first. -/
structure Trace (S : Type u) (E : Type w) where
  state : S
  events : List E

/-- Make a call and record what happened. -/
def record (step : S → C → E × S) (trace : Trace S E) (call : C) :
    Trace S E :=
  ⟨(step trace.state call).2, (step trace.state call).1 :: trace.events⟩

def run (step : S → C → E × S) (start : S) (calls : List C) : Trace S E :=
  calls.foldl (record step) ⟨start, []⟩

variable {step : S → C → E × S} {start : S}

/-- What holds at the start and is kept by every call holds after a run. -/
theorem run_invariant (Inv : Trace S E → Prop) (hstart : Inv ⟨start, []⟩)
    (hstep : ∀ trace call, Inv trace → Inv (record step trace call))
    (calls : List C) : Inv (run step start calls) := by
  have hfold : ∀ (rest : List C) (trace : Trace S E), Inv trace →
      Inv (rest.foldl (record step) trace) := by
    intro rest
    induction rest with
    | nil => exact fun _ htrace => htrace
    | cons call rest ih =>
        intro trace htrace
        exact ih _ (hstep trace call htrace)
  exact hfold calls _ hstart

/-- Every event of a run is the answer to a call in a state that satisfied the
invariant. -/
theorem exists_state_of_suffix (Inv : Trace S E → Prop)
    (hstart : Inv ⟨start, []⟩)
    (hstep : ∀ trace call, Inv trace → Inv (record step trace call))
    (calls : List C) {event : E} {past : List E}
    (hsuffix : event :: past <:+ (run step start calls).events) :
    ∃ state call, Inv ⟨state, past⟩ ∧ event = (step state call).1 := by
  let Recorded : Trace S E → Prop := fun trace =>
    Inv trace ∧ ∀ event past, event :: past <:+ trace.events →
      ∃ state call, Inv ⟨state, past⟩ ∧ event = (step state call).1
  have hnone : Recorded ⟨start, []⟩ := by
    refine ⟨hstart, fun event past hnil => ?_⟩
    exact absurd (List.suffix_nil.mp hnil) (List.cons_ne_nil _ _)
  have hkeep : ∀ trace call, Recorded trace →
      Recorded (record step trace call) := by
    rintro trace call ⟨htrace, hevents⟩
    refine ⟨hstep trace call htrace, fun event past hsuffix => ?_⟩
    rcases List.suffix_cons_iff.mp hsuffix with hnow | hbefore
    · obtain ⟨rfl, rfl⟩ := List.cons.inj hnow
      exact ⟨trace.state, call, htrace, rfl⟩
    · exact hevents event past hbefore
  exact (run_invariant Recorded hnone hkeep calls).2 event past hsuffix

end Runs

section Resources

variable {E : Type w} {K : Type x} {A : Type y} [DecidableEq K]

/-- The newest event that hands out a resource for `key`: its serial number,
which is the number of earlier events, and what it handed out. -/
def lastGrant (grants : E → Option (K × A)) (key : K) :
    List E → Option (ℕ × A)
  | [] => none
  | event :: past =>
      match grants event with
      | some (other, a) =>
          if other = key then some (past.length, a)
          else lastGrant grants key past
      | none => lastGrant grants key past

/-- Whether the resource now held for `key` has been used. -/
def usedSince (grants : E → Option (K × A)) (uses : E → Option K) (key : K) :
    List E → Bool
  | [] => false
  | event :: past =>
      if uses event = some key then true
      else
        match grants event with
        | some (other, _) =>
            if other = key then false else usedSince grants uses key past
        | none => usedSince grants uses key past

variable {grants : E → Option (K × A)} {uses : E → Option K}

theorem lastGrant_cons_of_ne {key : K} {event : E}
    (hne : ∀ a, grants event ≠ some (key, a)) (past : List E) :
    lastGrant grants key (event :: past) = lastGrant grants key past := by
  rw [lastGrant]
  split
  next other a hgrants =>
    have hother : other ≠ key := fun heq => hne a (heq ▸ hgrants)
    rw [if_neg hother]
  next => rfl

theorem lastGrant_cons_of_eq {key : K} {event : E} {a : A}
    (hgrants : grants event = some (key, a)) (past : List E) :
    lastGrant grants key (event :: past) = some (past.length, a) := by
  simp [lastGrant, hgrants]

/-- The serial number found points at an event that granted the resource. -/
theorem exists_of_lastGrant_eq {key : K} {past : List E} {serial : ℕ} {a : A}
    (hlast : lastGrant grants key past = some (serial, a)) :
    ∃ event before, event :: before <:+ past ∧ before.length = serial ∧
      grants event = some (key, a) := by
  induction past with
  | nil => cases hlast
  | cons event rest ih =>
      by_cases hgrants : ∃ b, grants event = some (key, b)
      · obtain ⟨b, hb⟩ := hgrants
        rw [lastGrant_cons_of_eq hb] at hlast
        cases hlast
        exact ⟨event, rest, List.suffix_refl _, rfl, hb⟩
      · rw [lastGrant_cons_of_ne (not_exists.mp hgrants)] at hlast
        obtain ⟨found, before, hsuffix, hserial, hfound⟩ := ih hlast
        exact ⟨found, before, hsuffix.trans (List.suffix_cons _ _), hserial,
          hfound⟩

theorem serial_lt_length {key : K} {past : List E} {serial : ℕ} {a : A}
    (hlast : lastGrant grants key past = some (serial, a)) :
    serial < past.length := by
  obtain ⟨event, before, hsuffix, rfl, -⟩ := exists_of_lastGrant_eq hlast
  exact hsuffix.length_le

/-- In one history a serial number and a key name one grant. -/
theorem grant_eq_of_serial {key : K} {events past past' : List E}
    (hpast : past <:+ events) (hpast' : past' <:+ events) {serial : ℕ}
    {a a' : A} (hlast : lastGrant grants key past = some (serial, a))
    (hlast' : lastGrant grants key past' = some (serial, a')) : a = a' := by
  obtain ⟨granter, before, hsuffix, hserial, hgrants⟩ :=
    exists_of_lastGrant_eq hlast
  obtain ⟨granter', before', hsuffix', hserial', hgrants'⟩ :=
    exists_of_lastGrant_eq hlast'
  have hsame := List.suffix_of_suffix_length_le (hsuffix.trans hpast)
    (hsuffix'.trans hpast') (by simp only [List.length_cons]; omega)
  have heq := hsame.eq_of_length (by simp only [List.length_cons]; omega)
  cases heq
  rw [hgrants] at hgrants'
  cases hgrants'
  rfl

/-- A used resource was used by an event that held the same grant. -/
theorem exists_of_usedSince {key : K} {past : List E}
    (hdisjoint : ∀ event, uses event = some key → grants event = none)
    (hused : usedSince grants uses key past = true) :
    ∃ event before, event :: before <:+ past ∧ uses event = some key ∧
      lastGrant grants key before = lastGrant grants key past := by
  induction past with
  | nil => cases hused
  | cons event rest ih =>
      by_cases huses : uses event = some key
      · have hnone := hdisjoint event huses
        refine ⟨event, rest, List.suffix_refl _, huses, ?_⟩
        rw [lastGrant_cons_of_ne (by simp [hnone])]
      · by_cases hgrants : ∃ b, grants event = some (key, b)
        · obtain ⟨b, hb⟩ := hgrants
          simp [usedSince, huses, hb] at hused
        · have hne := not_exists.mp hgrants
          have hrest : usedSince grants uses key rest = true := by
            rw [usedSince, if_neg huses] at hused
            split at hused
            next other a heq =>
              have hother : other ≠ key := fun h => hne a (h ▸ heq)
              rwa [if_neg hother] at hused
            next => exact hused
          obtain ⟨user, before, hsuffix, huser, hsame⟩ := ih hrest
          refine ⟨user, before, hsuffix.trans (List.suffix_cons _ _), huser, ?_⟩
          rw [hsame, lastGrant_cons_of_ne hne]

/-- If an older event used the resource that is held now, it counts as
used. -/
theorem usedSince_of_suffix {key : K} {past before : List E} {user : E}
    (hsuffix : user :: before <:+ past) (huser : uses user = some key)
    {serial : ℕ} {a b : A}
    (hold : lastGrant grants key before = some (serial, a))
    (hnow : lastGrant grants key past = some (serial, b)) :
    usedSince grants uses key past = true := by
  induction past with
  | nil =>
      have hnil := List.suffix_nil.mp hsuffix
      cases hnil
  | cons event rest ih =>
      rcases List.suffix_cons_iff.mp hsuffix with hhead | htail
      · cases hhead
        simp [usedSince, huser]
      · by_cases huses : uses event = some key
        · simp [usedSince, huses]
        · by_cases hgrants : ∃ c, grants event = some (key, c)
          · obtain ⟨c, hc⟩ := hgrants
            rw [lastGrant_cons_of_eq hc] at hnow
            cases hnow
            have hlt := serial_lt_length hold
            have hle := htail.length_le
            simp only [List.length_cons] at hle
            omega
          · have hne := not_exists.mp hgrants
            rw [lastGrant_cons_of_ne hne] at hnow
            have hrest := ih htail hnow
            rw [usedSince, if_neg huses]
            split
            next other c heq =>
              have hother : other ≠ key := fun h => hne c (h ▸ heq)
              rwa [if_neg hother]
            next => exact hrest

/-- Every granted resource is used by at most one event. -/
def SingleUse (grants : E → Option (K × A)) (uses : E → Option K)
    (events : List E) : Prop :=
  ∀ first firstPast second secondPast key key' serial a a',
    first :: firstPast <:+ events → second :: secondPast <:+ events →
    uses first = some key → uses second = some key' →
    lastGrant grants key firstPast = some (serial, a) →
    lastGrant grants key' secondPast = some (serial, a') →
    firstPast.length = secondPast.length

/-- No event uses a resource that has been used. -/
def NoRepeatedUse (grants : E → Option (K × A)) (uses : E → Option K)
    (events : List E) : Prop :=
  ∀ event past key, event :: past <:+ events → uses event = some key →
    usedSince grants uses key past = false

theorem singleUse_of_noRepeatedUse {events : List E}
    (hfresh : NoRepeatedUse grants uses events) :
    SingleUse grants uses events := by
  intro first firstPast second secondPast key key' serial a a' hfirst hsecond
    huses huses' hlast hlast'
  have hkey : key = key' := by
    obtain ⟨granter, before, hsuffix, hserial, hgrants⟩ :=
      exists_of_lastGrant_eq hlast
    obtain ⟨granter', before', hsuffix', hserial', hgrants'⟩ :=
      exists_of_lastGrant_eq hlast'
    have hevents := (hsuffix.trans (List.suffix_cons _ _)).trans hfirst
    have hevents' := (hsuffix'.trans (List.suffix_cons _ _)).trans hsecond
    have hsame := List.suffix_of_suffix_length_le hevents hevents'
      (by simp only [List.length_cons]; omega)
    have heq := hsame.eq_of_length (by simp only [List.length_cons]; omega)
    cases heq
    rw [hgrants] at hgrants'
    cases hgrants'
    rfl
  subst hkey
  -- The older of two uses of one grant would make the newer one a repetition.
  have holder : ∀ newer newerPast older olderPast b b',
      newer :: newerPast <:+ events → older :: olderPast <:+ events →
      uses newer = some key → uses older = some key →
      lastGrant grants key newerPast = some (serial, b) →
      lastGrant grants key olderPast = some (serial, b') →
      ¬ olderPast.length < newerPast.length := by
    intro newer newerPast older olderPast b b' hnewer holder hnew hold hlastNew
      hlastOld hlt
    have hsuffix : older :: olderPast <:+ newerPast := by
      apply List.suffix_of_suffix_length_le holder
        ((List.suffix_cons _ _).trans hnewer)
      rw [List.length_cons]
      exact Nat.succ_le_of_lt hlt
    have hused := usedSince_of_suffix hsuffix hold hlastOld hlastNew
    rw [hfresh newer newerPast key hnewer hnew] at hused
    cases hused
  have hle := holder _ _ _ _ _ _ hfirst hsecond huses huses' hlast hlast'
  have hge := holder _ _ _ _ _ _ hsecond hfirst huses' huses hlast' hlast
  omega

/-- When only granted resources are used, single use is the absence of
repetitions. -/
theorem singleUse_iff_noRepeatedUse {events : List E}
    (hdisjoint : ∀ event key, uses event = some key → grants event = none)
    (hgranted : ∀ event past key, event :: past <:+ events →
      uses event = some key → ∃ grant, lastGrant grants key past = some grant) :
    SingleUse grants uses events ↔ NoRepeatedUse grants uses events := by
  refine ⟨fun hsingle event past key hsuffix huses => ?_,
    singleUse_of_noRepeatedUse⟩
  by_contra hused
  obtain ⟨user, before, hbefore, huser, hsame⟩ := exists_of_usedSince
    (fun event => hdisjoint event key) (Bool.not_eq_false _ ▸ hused)
  obtain ⟨⟨serial, a⟩, hlast⟩ := hgranted event past key hsuffix huses
  have hlength := hsingle event past user before key key serial a a hsuffix
    ((hbefore.trans (List.suffix_cons _ _)).trans hsuffix) huses huser hlast
    (hsame.trans hlast)
  have hle := hbefore.length_le
  simp only [List.length_cons] at hle
  omega

end Resources

end History
