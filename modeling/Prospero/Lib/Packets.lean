import Mathlib.Data.List.Basic
import Mathlib.Tactic.Common

/-!
# Streams of packets that carry their size

A stream is a list of words, and the first word of every packet says how many words the packet has.
`Packets.split` cuts a stream at these sizes, and `split_eq_some_iff` says what it means for it to succeed:
the packets make up the stream, and each is as long as its first word says.  Appending a packet with the
right size to a stream therefore appends it to the packets (`split_append`).
-/

namespace Packets

variable {α : Type*} {size : α → ℕ}

/-- Cut a stream into packets; `none` when a packet is empty or reaches past the end. -/
def split (size : α → ℕ) : List α → Option (List (List α))
  | [] => some []
  | w :: ws =>
    if _h : 0 < size w ∧ size w ≤ (w :: ws).length then
      (split size ((w :: ws).drop (size w))).map fun packets => (w :: ws).take (size w) :: packets
    else none
termination_by ws => ws.length
decreasing_by
  rw [List.length_drop]
  omega

/-- The first word of the packet says how long it is. -/
def Sized (size : α → ℕ) (packet : List α) : Prop := packet.head?.map size = some packet.length

lemma Sized.pos {packet : List α} (h : Sized size packet) :
    ∃ w ws, packet = w :: ws ∧ size w = ws.length + 1 := by
  cases packet with
  | nil => cases h
  | cons w ws => exact ⟨w, ws, rfl, Option.some.inj h⟩

@[simp] lemma split_nil : split size [] = some [] := by rw [split]

/-- A packet in front of a stream. -/
lemma split_packet_append {packet : List α} (h : Sized size packet) (rest : List α) :
    split size (packet ++ rest) = (split size rest).map fun packets => packet :: packets := by
  obtain ⟨w, ws, rfl, hsize⟩ := h.pos
  rw [List.cons_append, split, dif_pos]
  · rw [← List.cons_append, hsize, ← List.length_cons (a := w), List.drop_left, List.take_left]
  · rw [hsize, List.length_cons, List.length_append]
    omega

/-- The packets of a stream make it up, and have the size they say. -/
theorem split_eq_some_iff {stream : List α} {packets : List (List α)} :
    split size stream = some packets ↔
      packets.flatten = stream ∧ ∀ packet ∈ packets, Sized size packet := by
  constructor
  · intro h
    induction stream using split.induct size generalizing packets with
    | case1 =>
      rw [split_nil] at h
      cases h
      exact ⟨rfl, fun packet hmem => absurd hmem List.not_mem_nil⟩
    | case2 w ws hw ih =>
      rw [split, dif_pos hw] at h
      obtain ⟨rest, hrest, rfl⟩ := Option.map_eq_some_iff.mp h
      obtain ⟨hflat, hsized⟩ := ih hrest
      refine ⟨?_, fun packet hmem => ?_⟩
      · rw [List.flatten_cons, hflat, List.take_append_drop]
      · rcases List.mem_cons.mp hmem with rfl | hmem
        · obtain ⟨k, hk⟩ : ∃ k, size w = k + 1 := ⟨size w - 1, by omega⟩
          have hlen : k ≤ ws.length := by
            have hle := hw.2
            rw [hk, List.length_cons] at hle
            omega
          rw [Sized, hk, List.take_succ_cons, List.head?_cons, Option.map_some, List.length_cons,
            List.length_take, Nat.min_eq_left hlen, hk]
        · exact hsized packet hmem
    | case3 w ws hw =>
      rw [split, dif_neg hw] at h
      cases h
  · rintro ⟨rfl, hsized⟩
    induction packets with
    | nil => exact split_nil
    | cons packet packets ih =>
      rw [List.flatten_cons, split_packet_append (hsized packet List.mem_cons_self),
        ih fun p hp => hsized p (List.mem_cons_of_mem packet hp)]
      rfl

/-- A packet behind a stream. -/
theorem split_append {stream packet : List α} {packets : List (List α)}
    (h : split size stream = some packets) (hpacket : Sized size packet) :
    split size (stream ++ packet) = some (packets ++ [packet]) := by
  obtain ⟨hflat, hsized⟩ := split_eq_some_iff.mp h
  refine split_eq_some_iff.mpr ⟨?_, fun p hp => ?_⟩
  · rw [List.flatten_append, hflat, List.flatten_singleton]
  · rcases List.mem_append.mp hp with hp | hp
    · exact hsized p hp
    · rw [List.mem_singleton.mp hp]
      exact hpacket

end Packets
