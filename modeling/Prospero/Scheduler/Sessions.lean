import Mathlib.Algebra.Order.Group.Unbundled.Int
import Prospero.Lib.Slots
import Prospero.Status

/-!
# Session registry of the scheduler

`scheduler/scheduler.c`: `pai_sched_session_create`, `pai_sched_session_destroy` and
`pai_sched_pick_session` over every run of creates and destroys.

### Outline
* `SessionsHold` is what a run keeps: the count, ids that are counted up from one, each active id issued
  once (`sessionsHold_step`, `sessionsHold_run`).
* The pick is the first slot of those with the highest priority (`paiSchedPickSession_spec`).  Slots are
  taken again and ids are not, so this is the lowest id only where the slots stand in the order of the
  ids (`schedSessions_run`).
-/

namespace Prospero

open Slots

/-! ## The registry -/

/-- `PAI_SCHED_MAX_SESSIONS`. -/
abbrev paiSchedMaxSessions : ℕ := 16

/-- `PAI_SCHED_BALANCED`, the last policy. -/
abbrev paiSchedBalanced : UInt8 := 3

/-- `pai_sched_session_t`. -/
structure SchedSession where
  /-- Session id. -/
  id : UInt64
  /-- Higher is more important. -/
  priority : ℤ
  /-- A scheduling policy. -/
  policy : UInt8
  /-- Workload in flight. -/
  active : Bool

/-- `pai_sched_sessions_t`. -/
structure SchedSessions where
  /-- Slots, taken again after a destroy. -/
  slots : Fin paiSchedMaxSessions → SchedSession
  /-- Active slots. -/
  count : UInt32
  /-- Id of the next session. -/
  nextId : UInt64

/-- `pai_sched_sessions_init`. -/
def paiSchedSessionsInit : SchedSessions := ⟨fun _ => ⟨0, 0, 0, false⟩, 0, 1⟩

/-- `pai_sched_session_create`. -/
def paiSchedSessionCreate (s : SchedSessions) (priority : ℤ) (policy : UInt8) :
    SchedSessions × Except PaiStatus UInt64 :=
  if paiSchedBalanced < policy then (s, .error paiErrInvalidArg)
  else match firstSlot fun i => ! (s.slots i).active with
    | some i =>
      ({ slots := Function.update s.slots i ⟨s.nextId, priority, policy, true⟩
         count := s.count + 1
         nextId := s.nextId + 1 }, .ok s.nextId)
    | none => (s, .error paiErrNomem)

/-- `pai_sched_session_destroy`. -/
def paiSchedSessionDestroy (s : SchedSessions) (id : UInt64) : SchedSessions × PaiStatus :=
  if id = 0 then (s, paiErrInvalidArg)
  else match firstSlot fun i => (s.slots i).active && (s.slots i).id == id with
    | some i =>
      ({ s with
         slots := Function.update s.slots i { s.slots i with active := false }
         count := s.count - 1 }, paiOk)
    | none => (s, paiErrMismatch)

/-- One turn of the loop of `pai_sched_pick_session`. -/
def pickTurn (s : SchedSessions) (best : Option (Fin paiSchedMaxSessions)) (i : Fin paiSchedMaxSessions) :
    Option (Fin paiSchedMaxSessions) :=
  if ¬ (s.slots i).active then best
  else match best with
    | none => some i
    | some b => if (s.slots b).priority < (s.slots i).priority then some i else some b

/-- `pai_sched_pick_session`. -/
def paiSchedPickSession (s : SchedSessions) : Option (Fin paiSchedMaxSessions) :=
  (List.finRange paiSchedMaxSessions).foldl (pickTurn s) none

/-! ## Runs -/

/-- One call. -/
inductive RegistryCall where
  /-- `pai_sched_session_create`. -/
  | create (priority : ℤ) (policy : UInt8)
  /-- `pai_sched_session_destroy`. -/
  | destroy (id : UInt64)

/-- A registry with the ids its creates returned, oldest first. -/
structure RegistryRun where
  /-- The registry. -/
  sessions : SchedSessions
  /-- Ids returned. -/
  issued : List UInt64

/-- One call of a run. -/
def RegistryRun.step (r : RegistryRun) : RegistryCall → RegistryRun
  | .create priority policy =>
    match paiSchedSessionCreate r.sessions priority policy with
    | (s, .ok id) => ⟨s, r.issued ++ [id]⟩
    | (s, .error _) => ⟨s, r.issued⟩
  | .destroy id => ⟨(paiSchedSessionDestroy r.sessions id).1, r.issued⟩

/-- The run of a list of calls on a new registry. -/
def registryRun (calls : List RegistryCall) : RegistryRun :=
  calls.foldl RegistryRun.step ⟨paiSchedSessionsInit, []⟩

/-- The active slots. -/
def SchedSessions.activeSlots (s : SchedSessions) : Finset (Fin paiSchedMaxSessions) :=
  Finset.univ.filter fun i => (s.slots i).active

/-- What holds of a registry and of the ids it issued. -/
structure RegistryLaw (r : RegistryRun) : Prop where
  /-- The count is the number of active slots. -/
  count : r.sessions.count.toNat = r.sessions.activeSlots.card
  /-- Active ids are distinct. -/
  distinct : ∀ i ∈ r.sessions.activeSlots, ∀ j ∈ r.sessions.activeSlots,
    (r.sessions.slots i).id = (r.sessions.slots j).id → i = j
  /-- Active ids were issued, no id was issued twice, and none is zero. -/
  issued : (∀ i ∈ r.sessions.activeSlots, (r.sessions.slots i).id ∈ r.issued) ∧ r.issued.Nodup ∧ 0 ∉ r.issued
  /-- A failing create changes nothing. -/
  createFails : ∀ priority policy status, (paiSchedSessionCreate r.sessions priority policy).2 = .error status →
    (paiSchedSessionCreate r.sessions priority policy).1 = r.sessions
  /-- A failing destroy changes nothing. -/
  destroyFails : ∀ id, (paiSchedSessionDestroy r.sessions id).2 ≠ paiOk →
    (paiSchedSessionDestroy r.sessions id).1 = r.sessions

/-- An active slot of the highest priority. -/
def SchedSessions.Top (s : SchedSessions) (i : Fin paiSchedMaxSessions) : Prop :=
  i ∈ s.activeSlots ∧ ∀ j ∈ s.activeSlots, (s.slots j).priority ≤ (s.slots i).priority

instance (s : SchedSessions) (i : Fin paiSchedMaxSessions) : Decidable (s.Top i) :=
  inferInstanceAs (Decidable (_ ∧ _))

/-- The pick: none exactly when nothing is active, else the session of the highest priority, the one with
the lowest id of those. -/
def PickLaw (s : SchedSessions) : Prop :=
  (paiSchedPickSession s = none ↔ s.activeSlots = ∅) ∧
    ∀ i, paiSchedPickSession s = some i → s.Top i ∧ ∀ j, s.Top j → (s.slots i).id ≤ (s.slots j).id

instance (s : SchedSessions) : Decidable (PickLaw s) := inferInstanceAs (Decidable (_ ∧ _))

/-- Of the active sessions of the highest priority, the one in the lowest slot has the lowest id. -/
def TopInOrder (s : SchedSessions) : Prop :=
  ∀ i j, s.Top i → s.Top j → (∀ k, s.Top k → i ≤ k) → (s.slots i).id ≤ (s.slots j).id

/-! ## The pick -/

/-- What the loop of the pick holds after the slots it has seen. -/
lemma pickTurn_foldl (s : SchedSessions) {seen : List (Fin paiSchedMaxSessions)}
    (hsorted : seen.Pairwise (· < ·)) :
    (seen.foldl (pickTurn s) none = none ↔ ∀ j ∈ seen, j ∉ s.activeSlots) ∧
      ∀ i, seen.foldl (pickTurn s) none = some i → i ∈ seen ∧ i ∈ s.activeSlots ∧
        ∀ j ∈ seen, j ∈ s.activeSlots → (s.slots j).priority ≤ (s.slots i).priority ∧
          ((s.slots j).priority = (s.slots i).priority → i ≤ j) := by
  have hactive : ∀ i, i ∈ s.activeSlots ↔ (s.slots i).active = true := fun i => by
    simp [SchedSessions.activeSlots]
  induction seen using List.reverseRecOn with
  | nil => simp
  | append_singleton seen next ih =>
    obtain ⟨hseen, -, hlast⟩ := List.pairwise_append.mp hsorted
    have hlt : ∀ j ∈ seen, j < next := fun j hj => hlast j hj next (List.mem_singleton_self next)
    obtain ⟨hnone, hsome⟩ := ih hseen
    rw [List.foldl_append, List.foldl_cons, List.foldl_nil]
    by_cases hnext : (s.slots next).active = true
    · -- an active slot is taken when it is better than what was seen
      cases hbest : seen.foldl (pickTurn s) none with
      | none =>
        have hquiet := hnone.mp hbest
        simp only [pickTurn, hnext, not_true_eq_false, if_false]
        refine ⟨by simp [hactive, hnext], fun i hi => ?_⟩
        cases hi
        refine ⟨by simp, (hactive _).mpr hnext, fun j hj hjactive => ?_⟩
        rcases List.mem_append.mp hj with hj | hj
        · exact absurd hjactive (hquiet j hj)
        · rw [List.mem_singleton.mp hj]
          exact ⟨le_refl _, fun _ => le_refl _⟩
      | some b =>
        obtain ⟨hmem, hb, hbound⟩ := hsome b hbest
        simp only [pickTurn, hnext, not_true_eq_false, if_false]
        split_ifs with hbetter
        · refine ⟨by simp [hactive, hnext], fun i hi => ?_⟩
          cases hi
          refine ⟨by simp, (hactive _).mpr hnext, fun j hj hjactive => ?_⟩
          rcases List.mem_append.mp hj with hj | hj
          · have hle := (hbound j hj hjactive).1
            exact ⟨by omega, fun heq => by omega⟩
          · rw [List.mem_singleton.mp hj]
            exact ⟨le_refl _, fun _ => le_refl _⟩
        · refine ⟨by simp [hactive, hnext], fun i hi => ?_⟩
          cases hi
          refine ⟨List.mem_append_left _ hmem, hb, fun j hj hjactive => ?_⟩
          rcases List.mem_append.mp hj with hj | hj
          · exact hbound j hj hjactive
          · rw [List.mem_singleton.mp hj]
            exact ⟨by omega, fun _ => (hlt b hmem).le⟩
    · have hquiet : next ∉ s.activeSlots := fun h => hnext ((hactive next).mp h)
      have hstay : ∀ best, pickTurn s best next = best := fun best => if_pos hnext
      rw [hstay]
      refine ⟨?_, fun i hi => ?_⟩
      · rw [hnone]
        simp only [List.mem_append, List.mem_singleton]
        exact ⟨fun h j hj => hj.elim (h j) fun heq => heq ▸ hquiet, fun h j hj => h j (.inl hj)⟩
      · obtain ⟨hmem, hi', hbound⟩ := hsome i hi
        refine ⟨List.mem_append_left _ hmem, hi', fun j hj hjactive => ?_⟩
        rcases List.mem_append.mp hj with hj | hj
        · exact hbound j hj hjactive
        · exact absurd (List.mem_singleton.mp hj ▸ hjactive) hquiet

/-- The pick is the first slot of those with the highest priority. -/
lemma paiSchedPickSession_spec (s : SchedSessions) :
    (paiSchedPickSession s = none ↔ s.activeSlots = ∅) ∧
      ∀ i, paiSchedPickSession s = some i → s.Top i ∧ ∀ j, s.Top j → i ≤ j := by
  obtain ⟨hnone, hsome⟩ := pickTurn_foldl s (List.pairwise_lt_finRange paiSchedMaxSessions)
  constructor
  · rw [paiSchedPickSession, hnone, Finset.eq_empty_iff_forall_notMem]
    exact ⟨fun h j => h j (List.mem_finRange j), fun h j _ => h j⟩
  · intro i hi
    obtain ⟨-, hactive, hbound⟩ := hsome i hi
    have htop : s.Top i := ⟨hactive, fun j hj => (hbound j (List.mem_finRange j) hj).1⟩
    refine ⟨htop, fun j hj => (hbound j (List.mem_finRange j) hj.1).2 ?_⟩
    exact le_antisymm (htop.2 j hj.1) (hj.2 i hactive)

/-- The pick obeys its law exactly where the lowest top slot has the lowest id. -/
lemma pickLaw_iff (s : SchedSessions) : PickLaw s ↔ TopInOrder s := by
  obtain ⟨hnone, hsome⟩ := paiSchedPickSession_spec s
  constructor
  · rintro ⟨-, hlaw⟩ i j hi hj hfirst
    cases hpick : paiSchedPickSession s with
    | none =>
      rw [hnone] at hpick
      exact absurd hi.1 (hpick ▸ Finset.notMem_empty i)
    | some k =>
      have hki : k = i := le_antisymm ((hsome k hpick).2 i hi) (hfirst k (hsome k hpick).1)
      subst hki
      exact (hlaw k hpick).2 j hj
  · intro horder
    refine ⟨hnone, fun i hi => ⟨(hsome i hi).1, fun j hj => ?_⟩⟩
    exact horder i j (hsome i hi).1 hj (hsome i hi).2

/-! ## What a run keeps -/

/-- The invariant of a run: ids are counted up from one. -/
structure SessionsHold (r : RegistryRun) : Prop where
  /-- The next id. -/
  next : r.sessions.nextId = UInt64.ofNat (r.issued.length + 1)
  /-- The ids issued. -/
  issued : r.issued.map UInt64.toNat = List.range' 1 r.issued.length
  /-- Active ids were issued. -/
  member : ∀ i ∈ r.sessions.activeSlots, (r.sessions.slots i).id ∈ r.issued
  /-- Active ids are distinct. -/
  distinct : ∀ i ∈ r.sessions.activeSlots, ∀ j ∈ r.sessions.activeSlots,
    (r.sessions.slots i).id = (r.sessions.slots j).id → i = j
  /-- The count. -/
  count : r.sessions.count.toNat = r.sessions.activeSlots.card

lemma mem_activeSlots {s : SchedSessions} {i : Fin paiSchedMaxSessions} :
    i ∈ s.activeSlots ↔ (s.slots i).active = true := by simp [SchedSessions.activeSlots]

lemma activeSlots_card_le (s : SchedSessions) : s.activeSlots.card ≤ paiSchedMaxSessions := by
  have hle := Finset.card_le_univ s.activeSlots
  rwa [Fintype.card_fin] at hle

/-- A slot taken. -/
lemma activeSlots_take (s : SchedSessions) (i : Fin paiSchedMaxSessions) {session : SchedSession}
    (h : session.active = true) (count : UInt32) (nextId : UInt64) :
    (SchedSessions.mk (Function.update s.slots i session) count nextId).activeSlots =
      insert i s.activeSlots := by
  ext j
  rw [mem_activeSlots, Finset.mem_insert, mem_activeSlots]
  dsimp only
  by_cases hj : j = i
  · simp [hj, h]
  · simp [hj]

/-- A slot freed. -/
lemma activeSlots_free (s : SchedSessions) (i : Fin paiSchedMaxSessions) {session : SchedSession}
    (h : session.active = false) (count : UInt32) (nextId : UInt64) :
    (SchedSessions.mk (Function.update s.slots i session) count nextId).activeSlots =
      s.activeSlots.erase i := by
  ext j
  rw [mem_activeSlots, Finset.mem_erase, mem_activeSlots]
  dsimp only
  by_cases hj : j = i
  · simp [hj, h]
  · simp [hj]

/-- The ids issued are below the next one. -/
lemma SessionsHold.toNat_le {r : RegistryRun} (h : SessionsHold r) {id : UInt64} (hid : id ∈ r.issued) :
    1 ≤ id.toNat ∧ id.toNat ≤ r.issued.length := by
  have hmem : id.toNat ∈ r.issued.map UInt64.toNat := List.mem_map_of_mem hid
  rw [h.issued, List.mem_range'_1] at hmem
  omega

/-- A create that succeeds. -/
lemma sessionsHold_create {r : RegistryRun} (h : SessionsHold r) {i : Fin paiSchedMaxSessions}
    (hi : (r.sessions.slots i).active = false) (hroom : r.issued.length + 1 < 0x10000000000000000)
    (priority : ℤ) (policy : UInt8) :
    SessionsHold
      ⟨{ slots := Function.update r.sessions.slots i ⟨r.sessions.nextId, priority, policy, true⟩
         count := r.sessions.count + 1
         nextId := r.sessions.nextId + 1 }, r.issued ++ [r.sessions.nextId]⟩ := by
  have hid : r.sessions.nextId.toNat = r.issued.length + 1 := by
    rw [h.next, UInt64.toNat_ofNat_of_lt' hroom]
  have hnew : ∀ j ∈ r.sessions.activeSlots, (r.sessions.slots j).id ≠ r.sessions.nextId := by
    intro j hj heq
    have hle := (h.toNat_le (h.member j hj)).2
    rw [heq, hid] at hle
    omega
  have hinactive : i ∉ r.sessions.activeSlots := by
    rw [mem_activeSlots, hi]
    simp
  refine ⟨?_, ?_, ?_, ?_, ?_⟩
  · change r.sessions.nextId + 1 = _
    rw [h.next, List.length_append, List.length_singleton]
    exact (UInt64.ofNat_add _ _).symm
  · change (r.issued ++ [r.sessions.nextId]).map UInt64.toNat = _
    rw [List.map_append, List.map_singleton, h.issued, hid, List.length_append, List.length_singleton,
      List.range'_concat]
    simp [Nat.add_comm]
  · intro j hj
    rw [activeSlots_take _ _ rfl, Finset.mem_insert] at hj
    by_cases hji : j = i
    · subst hji
      simp
    · have hj' := hj.resolve_left hji
      simpa [hji] using .inl (h.member j hj')
  · intro j hj k hk heq
    rw [activeSlots_take _ _ rfl, Finset.mem_insert] at hj hk
    by_cases hji : j = i <;> by_cases hki : k = i
    · rw [hji, hki]
    · subst hji
      simp only [Function.update_self, Function.update_of_ne hki] at heq
      exact absurd heq.symm (hnew k (hk.resolve_left hki))
    · subst hki
      simp only [Function.update_self, Function.update_of_ne hji] at heq
      exact absurd heq (hnew j (hj.resolve_left hji))
    · simp only [Function.update_of_ne hji, Function.update_of_ne hki] at heq
      exact h.distinct j (hj.resolve_left hji) k (hk.resolve_left hki) heq
  · rw [activeSlots_take _ _ rfl, Finset.card_insert_of_notMem hinactive]
    have hle := activeSlots_card_le r.sessions
    change (r.sessions.count + 1).toNat = _
    rw [UInt32.toNat_add, h.count]
    change (r.sessions.activeSlots.card + 1) % 4294967296 = _
    have hmax : paiSchedMaxSessions = 16 := rfl
    omega

/-- A destroy that succeeds. -/
lemma sessionsHold_destroy {r : RegistryRun} (h : SessionsHold r) {i : Fin paiSchedMaxSessions}
    (hi : i ∈ r.sessions.activeSlots) :
    SessionsHold
      ⟨{ r.sessions with
         slots := Function.update r.sessions.slots i { r.sessions.slots i with active := false }
         count := r.sessions.count - 1 }, r.issued⟩ := by
  have hslot : ∀ j ≠ i, Function.update r.sessions.slots i { r.sessions.slots i with active := false } j =
      r.sessions.slots j := fun j hj => Function.update_of_ne hj ..
  refine ⟨h.next, h.issued, ?_, ?_, ?_⟩
  · intro j hj
    rw [activeSlots_free _ _ rfl, Finset.mem_erase] at hj
    dsimp only
    rw [hslot j hj.1]
    exact h.member j hj.2
  · intro j hj k hk heq
    rw [activeSlots_free _ _ rfl, Finset.mem_erase] at hj hk
    dsimp only at heq
    rw [hslot j hj.1, hslot k hk.1] at heq
    exact h.distinct j hj.2 k hk.2 heq
  · have hpos := Finset.card_pos.mpr ⟨i, hi⟩
    have hle : (1 : UInt32) ≤ r.sessions.count := by
      rw [UInt32.le_iff_toNat_le, h.count]
      exact hpos
    rw [activeSlots_free _ _ rfl, Finset.card_erase_of_mem hi]
    change (r.sessions.count - 1).toNat = _
    rw [UInt32.toNat_sub_of_le _ _ hle, h.count]
    rfl

/-- The invariant goes through a call. -/
lemma sessionsHold_step {r : RegistryRun} (h : SessionsHold r) (call : RegistryCall)
    (hroom : (r.step call).issued.length < 0x10000000000000000) : SessionsHold (r.step call) := by
  cases call with
  | create priority policy =>
    rw [RegistryRun.step] at hroom ⊢
    unfold paiSchedSessionCreate at hroom ⊢
    split_ifs at hroom ⊢ with hpolicy
    · exact h
    · cases hslot : firstSlot fun i => ! (r.sessions.slots i).active with
      | none =>
        rw [hslot] at hroom
        exact h
      | some i =>
        rw [hslot] at hroom
        dsimp only at hroom ⊢
        rw [List.length_append, List.length_singleton] at hroom
        exact sessionsHold_create h (by simpa using (firstSlot_some hslot).1) hroom priority policy
  | destroy id =>
    rw [RegistryRun.step]
    unfold paiSchedSessionDestroy
    split_ifs with hid
    · exact h
    · cases hslot : firstSlot fun i => (r.sessions.slots i).active && (r.sessions.slots i).id == id with
      | none => exact h
      | some i =>
        have hi := (firstSlot_some hslot).1
        rw [Bool.and_eq_true] at hi
        exact sessionsHold_destroy h (mem_activeSlots.mpr hi.1)

/-- A call issues no id or one. -/
lemma issued_length_le_step (r : RegistryRun) (call : RegistryCall) :
    r.issued.length ≤ (r.step call).issued.length := by
  cases call with
  | create priority policy =>
    rw [RegistryRun.step]
    split <;> simp
  | destroy id => exact le_refl _

/-- The invariant goes through a run. -/
lemma sessionsHold_run {r : RegistryRun} (h : SessionsHold r) (calls : List RegistryCall)
    (hroom : (calls.foldl RegistryRun.step r).issued.length < 0x10000000000000000) :
    SessionsHold (calls.foldl RegistryRun.step r) := by
  have hmono : ∀ (calls : List RegistryCall) (r : RegistryRun),
      r.issued.length ≤ (calls.foldl RegistryRun.step r).issued.length := by
    intro calls
    induction calls with
    | nil => exact fun r => le_refl _
    | cons call calls ih => exact fun r => (issued_length_le_step r call).trans (ih _)
  induction calls generalizing r with
  | nil => exact h
  | cons call calls ih =>
    exact ih (sessionsHold_step h call ((hmono calls _).trans_lt hroom)) hroom

lemma sessionsHold_init : SessionsHold ⟨paiSchedSessionsInit, []⟩ where
  next := rfl
  issued := rfl
  member i hi := by simp [mem_activeSlots, paiSchedSessionsInit] at hi
  distinct i hi := by simp [mem_activeSlots, paiSchedSessionsInit] at hi
  count := rfl

/-- What the invariant says of the ids. -/
lemma registryLaw_of_hold {r : RegistryRun} (h : SessionsHold r) : RegistryLaw r where
  count := h.count
  distinct := h.distinct
  issued := by
    refine ⟨h.member, ?_, fun hzero => ?_⟩
    · have hnodup : (r.issued.map UInt64.toNat).Nodup := h.issued ▸ List.nodup_range'
      exact hnodup.of_map _
    · have := (h.toNat_le hzero).1
      simp at this
  createFails priority policy status hfail := by
    unfold paiSchedSessionCreate at hfail ⊢
    split_ifs at hfail ⊢
    · rfl
    · cases hslot : firstSlot fun i => ! (r.sessions.slots i).active with
      | none => rfl
      | some i =>
        rw [hslot] at hfail
        cases hfail
  destroyFails id hfail := by
    unfold paiSchedSessionDestroy at hfail ⊢
    split_ifs at hfail ⊢
    · rfl
    · cases hslot : firstSlot fun i => (r.sessions.slots i).active && (r.sessions.slots i).id == id with
      | none => rfl
      | some i =>
        rw [hslot] at hfail
        exact absurd rfl hfail

/-- In every run with fewer than `2 ^ 64` creations the registry keeps its ids apart, and the pick obeys
its law exactly where the lowest slot of the highest priority has the lowest id. -/
theorem schedSessions_run (calls : List RegistryCall)
    (hroom : (registryRun calls).issued.length < 0x10000000000000000) :
    RegistryLaw (registryRun calls) ∧
      (PickLaw (registryRun calls).sessions ↔ TopInOrder (registryRun calls).sessions) :=
  ⟨registryLaw_of_hold (sessionsHold_run sessionsHold_init calls hroom), pickLaw_iff _⟩

/-- A run of three calls. -/
theorem schedSessions_run_three :
    RegistryLaw (registryRun [.create 1 0, .create 2 3, .destroy 1]) ∧
      (PickLaw (registryRun [.create 1 0, .create 2 3, .destroy 1]).sessions ↔
        TopInOrder (registryRun [.create 1 0, .create 2 3, .destroy 1]).sessions) :=
  schedSessions_run [.create 1 0, .create 2 3, .destroy 1] (by decide)

/-- A session created in a slot that was freed is picked before an older one of the same priority. -/
theorem schedSessions_fails :
    ¬ PickLaw (registryRun [.create 0 0, .create 0 0, .destroy 1, .create 0 0]).sessions := by
  decide +kernel

end Prospero
