import Prospero.Lib.Slots
import Prospero.Protocol.Poll

/-!
# The session table of a connection

Server-side sessions of `protocol/connection.c` over every run of opens and closes.

### Outline
* `sessionNextId` finds an id whatever the table holds and wherever the allocator stands: `0` and the
  active ids are fewer than the ids it looks at (`sessionNextId_returns`).
* An open puts the id it returns in the table, a close takes its id out (`sessionTable_step`), so that
  after every run the table holds exactly the ids that are open (`sessionTable_run`).
-/

namespace Prospero

open Slots

/-! ## Runs -/

/-- One call. -/
inductive SessionCall where
  /-- `pai_proto_conn_session_open`. -/
  | openSession
  /-- `pai_proto_conn_session_close`. -/
  | closeSession (id : UInt64)

/-- A connection with the ids its calls opened and did not close. -/
structure SessionRun where
  /-- The connection. -/
  conn : Conn
  /-- Ids that an open returned and no close took since. -/
  live : Finset UInt64

/-- One call of a run. -/
def SessionRun.step (r : SessionRun) : SessionCall → SessionRun
  | .openSession =>
    match paiProtoConnSessionOpen r.conn with
    | (conn, some id) => ⟨conn, insert id r.live⟩
    | (conn, none) => ⟨conn, r.live⟩
  | .closeSession id => ⟨paiProtoConnSessionClose r.conn id, r.live.erase id⟩

/-- What holds of a session table and of the open that comes next. -/
structure SessionTableLaw (r : SessionRun) : Prop where
  /-- The table holds exactly the open ids, each of them not zero and in one slot. -/
  table : Keyed 0 r.conn.sessions r.live
  /-- `pai_proto_conn_session_active` tells the open ids. -/
  active : ∀ id, paiProtoConnSessionActive r.conn id = true ↔ id ∈ r.live
  /-- The search of an open ends after a bounded number of turns. -/
  returns : ∃ found, ∀ fuel, paiProtoMaxSessions + 2 ≤ fuel → sessionNextId fuel r.conn = some found
  /-- An open fails exactly when every session is taken. -/
  refused : (paiProtoConnSessionOpen r.conn).2 = none ↔ r.live.card = paiProtoMaxSessions
  /-- A failed open leaves the table as it is. -/
  unchanged : (paiProtoConnSessionOpen r.conn).2 = none →
    (paiProtoConnSessionOpen r.conn).1.sessions = r.conn.sessions
  /-- An open returns an id that was not active. -/
  fresh : ∀ id, (paiProtoConnSessionOpen r.conn).2 = some id → id ≠ 0 ∧ id ∉ r.live

/-! ## The search for an id -/

/-- An id that the search passes over. -/
def SessionBlocked (conn : Conn) (id : UInt64) : Prop := id = 0 ∨ paiProtoConnSessionActive conn id = true

lemma sessionActive_iff (conn : Conn) (id : UInt64) :
    paiProtoConnSessionActive conn id = true ↔ id ≠ 0 ∧ ∃ i, conn.sessions i = id := by
  simp [paiProtoConnSessionActive]

/-- Where the search finds nothing, every id it looked at is taken. -/
lemma blocked_of_sessionNextId {fuel : ℕ} {conn : Conn} (h : sessionNextId fuel conn = none) :
    ∀ k < fuel, SessionBlocked conn (conn.nextSessionId + UInt64.ofNat k) := by
  induction fuel generalizing conn with
  | zero => exact fun k hk => absurd hk (Nat.not_lt_zero k)
  | succ fuel ih =>
    have hmore : ∀ next, sessionNextId fuel { conn with nextSessionId := next } = none →
        ∀ k < fuel, SessionBlocked conn (next + UInt64.ofNat k) := fun next hnext => ih hnext
    have hblocked : SessionBlocked conn conn.nextSessionId ∧
        sessionNextId fuel { conn with nextSessionId := conn.nextSessionId + 1 } = none := by
      unfold sessionNextId at h
      dsimp only at h
      split_ifs at h with hzero hactive
      · exact ⟨.inl hzero, h⟩
      · exact ⟨.inr hactive, h⟩
    intro k hk
    cases k with
    | zero => simpa using hblocked.1
    | succ k =>
      have hk' := hmore _ hblocked.2 k (by omega)
      rwa [UInt64.add_assoc, show (1 : UInt64) + UInt64.ofNat k = UInt64.ofNat (k + 1) by
        rw [UInt64.ofNat_add]; exact UInt64.add_comm _ _] at hk'

/-- More fuel finds the same id. -/
lemma sessionNextId_mono {fuel more : ℕ} {conn : Conn} {found : Conn × UInt64} (hle : fuel ≤ more)
    (h : sessionNextId fuel conn = some found) : sessionNextId more conn = some found := by
  induction fuel generalizing conn more with
  | zero => simp [sessionNextId] at h
  | succ fuel ih =>
    obtain ⟨more, rfl⟩ : ∃ n, more = n + 1 := ⟨more - 1, by omega⟩
    unfold sessionNextId at h ⊢
    dsimp only at h ⊢
    split_ifs at h ⊢ with hzero hactive
    · exact ih (by omega) h
    · exact ih (by omega) h
    · exact h

/-- The search ends: it looks at more ids than can be taken. -/
lemma sessionNextId_returns (conn : Conn) : ∃ found, sessionNextId (paiProtoMaxSessions + 2) conn = some found := by
  cases h : sessionNextId (paiProtoMaxSessions + 2) conn with
  | some found => exact ⟨found, rfl⟩
  | none =>
    exfalso
    have hblocked := blocked_of_sessionNextId h
    let taken : Finset UInt64 := insert 0 (Finset.univ.image conn.sessions)
    have htaken : taken.card ≤ paiProtoMaxSessions + 1 := by
      refine (Finset.card_insert_le _ _).trans (Nat.succ_le_succ ?_)
      refine Finset.card_image_le.trans ?_
      rw [Finset.card_univ, Fintype.card_fin]
    have hmaps : ∀ k ∈ Finset.range (paiProtoMaxSessions + 2),
        conn.nextSessionId + UInt64.ofNat k ∈ taken := by
      intro k hk
      rcases hblocked k (Finset.mem_range.mp hk) with hzero | hactive
      · exact hzero ▸ Finset.mem_insert_self _ _
      · obtain ⟨-, i, hi⟩ := (sessionActive_iff conn _).mp hactive
        exact Finset.mem_insert_of_mem (Finset.mem_image.mpr ⟨i, Finset.mem_univ i, hi⟩)
    obtain ⟨j, hj, k, hk, hne, heq⟩ := Finset.exists_ne_map_eq_of_card_lt_of_maps_to
      (by rw [Finset.card_range]; omega) hmaps
    refine hne ?_
    have hsame : UInt64.ofNat j = UInt64.ofNat k := by simpa using heq
    have hj' : j < 18 := Finset.mem_range.mp hj
    have hk' : k < 18 := Finset.mem_range.mp hk
    have hnat := congrArg UInt64.toNat hsame
    rwa [UInt64.toNat_ofNat_of_lt' (hj'.trans (by decide)), UInt64.toNat_ofNat_of_lt' (hk'.trans (by decide))] at hnat

/-- The id found is free. -/
lemma sessionNextId_free {fuel : ℕ} {conn conn' : Conn} {id : UInt64}
    (h : sessionNextId fuel conn = some (conn', id)) : ¬ SessionBlocked conn id := by
  induction fuel generalizing conn with
  | zero => simp [sessionNextId] at h
  | succ fuel ih =>
    have hmore : ∀ next, sessionNextId fuel { conn with nextSessionId := next } = some (conn', id) →
        ¬ SessionBlocked conn id := by
      intro next hnext
      have hfree := ih hnext
      exact hfree
    unfold sessionNextId at h
    dsimp only at h
    split_ifs at h with hzero hactive
    · exact hmore _ h
    · exact hmore _ h
    · cases h
      exact not_or.mpr ⟨hzero, hactive⟩

/-! ## Opens and closes -/

/-- What an open does. -/
lemma paiProtoConnSessionOpen_cases (conn : Conn) :
    (∃ (conn' : Conn) (id : UInt64) (i : Fin paiProtoMaxSessions), paiProtoConnSessionOpen conn =
        ({ conn' with sessions := Function.update conn.sessions i id }, some id) ∧
      conn.sessions i = 0 ∧ ¬ SessionBlocked conn id) ∨
    ∃ conn' : Conn, paiProtoConnSessionOpen conn = (conn', none) ∧ conn'.sessions = conn.sessions ∧
      ∀ i, conn.sessions i ≠ 0 := by
  obtain ⟨⟨conn', id⟩, hfound⟩ := sessionNextId_returns conn
  have hsessions : conn'.sessions = conn.sessions := by rw [sessionNextId_conn hfound]
  rw [paiProtoConnSessionOpen, hfound]
  cases hslot : (List.finRange paiProtoMaxSessions).find? fun i => conn'.sessions i == 0 with
  | some i =>
    have hi := (firstSlot_some hslot).1
    refine .inl ⟨conn', id, i, ?_, by rw [← hsessions]; simpa using hi, sessionNextId_free hfound⟩
    dsimp only
    rw [hslot, hsessions]
  | none =>
    have hall := firstSlot_none_iff.mp hslot
    refine .inr ⟨conn', ?_, hsessions, fun i => ?_⟩
    · dsimp only
      rw [hslot]
    · rw [← hsessions]
      simpa using hall i

/-- What a close does. -/
lemma paiProtoConnSessionClose_cases (conn : Conn) (id : UInt64) :
    (∃ i, conn.sessions i = id ∧
      paiProtoConnSessionClose conn id = { conn with sessions := Function.update conn.sessions i 0 }) ∨
    (∀ i, conn.sessions i ≠ id) ∧ paiProtoConnSessionClose conn id = conn := by
  rw [paiProtoConnSessionClose]
  cases hslot : (List.finRange paiProtoMaxSessions).find? fun i => conn.sessions i == id with
  | some i => exact .inl ⟨i, by simpa using (firstSlot_some hslot).1, rfl⟩
  | none => exact .inr ⟨fun i => by simpa using firstSlot_none_iff.mp hslot i, rfl⟩

/-- The table follows the open ids through a call. -/
lemma sessionTable_step {r : SessionRun} (h : Keyed 0 r.conn.sessions r.live) (call : SessionCall) :
    Keyed 0 (r.step call).conn.sessions (r.step call).live := by
  have hblocked : ∀ id, SessionBlocked r.conn id ↔ id = 0 ∨ id ∈ r.live := fun id => by
    rw [SessionBlocked, sessionActive_iff, h.mem_iff]
  cases call with
  | openSession =>
    rw [SessionRun.step]
    rcases paiProtoConnSessionOpen_cases r.conn with ⟨conn', id, i, hopen, hi, hfree⟩ | ⟨conn', hopen, hsame, -⟩
    · rw [hopen]
      rw [hblocked, not_or] at hfree
      exact h.put hi hfree.1 hfree.2
    · rw [hopen]
      dsimp only
      rw [hsame]
      exact h
  | closeSession id =>
    rw [SessionRun.step]
    rcases paiProtoConnSessionClose_cases r.conn id with ⟨i, rfl, hclose⟩ | ⟨hnone, hclose⟩
    · rw [hclose]
      exact h.clear i
    · -- nothing was open under this id
      have hnot : id ∉ r.live := fun hlive =>
        ((h.mem_iff id).mp hlive).2.elim fun i hi => hnone i hi
      rw [hclose, Finset.erase_eq_of_notMem hnot]
      exact h

/-- The law of a table that follows the open ids. -/
lemma sessionTableLaw_of_keyed {r : SessionRun} (h : Keyed 0 r.conn.sessions r.live) : SessionTableLaw r where
  table := h
  active id := by rw [sessionActive_iff, h.mem_iff]
  returns := by
    obtain ⟨found, hfound⟩ := sessionNextId_returns r.conn
    exact ⟨found, fun fuel hfuel => sessionNextId_mono hfuel hfound⟩
  refused := by
    rw [h.card_eq_iff]
    rcases paiProtoConnSessionOpen_cases r.conn with ⟨conn', id, i, hopen, hi, -⟩ | ⟨conn', hopen, -, hfull⟩
    · rw [hopen]
      exact ⟨fun hnone => absurd hnone (by simp), fun hfull => absurd hi (hfull i)⟩
    · rw [hopen]
      exact ⟨fun _ => hfull, fun _ => rfl⟩
  unchanged hnone := by
    rcases paiProtoConnSessionOpen_cases r.conn with ⟨conn', id, i, hopen, -, -⟩ | ⟨conn', hopen, hsame, -⟩
    · rw [hopen] at hnone
      cases hnone
    · rw [hopen]
      exact hsame
  fresh id hid := by
    rcases paiProtoConnSessionOpen_cases r.conn with ⟨conn', other, i, hopen, -, hfree⟩ | ⟨conn', hopen, -, -⟩
    · rw [hopen] at hid
      cases hid
      rw [SessionBlocked, sessionActive_iff, ← h.mem_iff, not_or] at hfree
      exact hfree
    · rw [hopen] at hid
      cases hid

/-- After every run of opens and closes on a connection without sessions, the table holds exactly the
open ids, and the next open behaves. -/
theorem sessionTable_run (conn : Conn) (h : ∀ i, conn.sessions i = 0) (calls : List SessionCall) :
    SessionTableLaw (calls.foldl SessionRun.step ⟨conn, ∅⟩) := by
  have hrun : ∀ r : SessionRun, Keyed 0 r.conn.sessions r.live →
      Keyed 0 (calls.foldl SessionRun.step r).conn.sessions (calls.foldl SessionRun.step r).live := by
    intro r hr
    induction calls generalizing r with
    | nil => exact hr
    | cons call calls ih => exact ih _ (sessionTable_step hr call)
  exact sessionTableLaw_of_keyed (hrun ⟨conn, ∅⟩ (Keyed.empty 0 h))

/-- A connection whose allocator is about to wrap. -/
theorem sessionTable_run_wrap :
    SessionTableLaw ([.openSession, .openSession, .closeSession 0, .closeSession 7].foldl SessionRun.step
      ⟨{ paiProtoConnInit .server 0 with nextSessionId := 0xFFFFFFFFFFFFFFFF }, ∅⟩) :=
  sessionTable_run { paiProtoConnInit .server 0 with nextSessionId := 0xFFFFFFFFFFFFFFFF } (fun _ => rfl)
    [.openSession, .openSession, .closeSession 0, .closeSession 7]

end Prospero
