/-
# Sending and taking on pairwise lanes

A send is refused by the state of its destination alone (`Refuses`), and an
accepted packet is the last of all. What is taken from a lane is the first
packet of that lane; the others keep their order (`take_split`).
-/
import Mathlib.Data.List.Basic
import Mathlib.Tactic.SplitIfs
import Quiescence.Network.Pairwise

namespace Quiescence

namespace Pairwise

variable {μ : Type} {n : Pairwise μ} {p : PlaceId}

/-- What is sent to the place is refused. -/
def Refuses (n : Pairwise μ) (p : PlaceId) : Prop := p.index < n.known → p ∈ n.dead

instance (n : Pairwise μ) (p : PlaceId) : Decidable (n.Refuses p) := by
  unfold Refuses
  infer_instance

theorem send_accepted {pk : Packet μ} (h : ¬ n.Refuses pk.dest) :
    Network.send n pk = .ok { n with packets := n.packets ++ [pk] } := by
  unfold Refuses at h
  push Not at h
  show n.send pk = _
  simp [send, h]

theorem send_refused {pk : Packet μ} (h : n.Refuses pk.dest) : ∃ e, Network.send n pk = .error e := by
  unfold Refuses at h
  show ∃ e, n.send pk = .error e
  unfold send
  split_ifs with h1 h2
  · exact ⟨_, rfl⟩
  · exact absurd (h h1) h2
  · exact ⟨_, rfl⟩

/-- A dead place stays dead, and the others are not affected. -/
theorem refuses_kill (h : n.Refuses p) (q : PlaceId) : (n.kill q).Refuses p :=
  fun hk => List.mem_cons_of_mem _ (h hk)

/-- The packet taken from a lane is the first one there. -/
theorem takeFirst_split {lane : Lane} {pks rest : List (Packet μ)} {pk : Packet μ}
    (h : takeFirst lane pks = some (pk, rest)) :
    ∃ before after, pks = before ++ pk :: after ∧ rest = before ++ after ∧ laneOf pk = lane ∧
      ∀ q ∈ before, laneOf q ≠ lane := by
  induction pks generalizing rest with
  | nil => cases h
  | cons q pks ih =>
    simp only [takeFirst] at h
    split_ifs at h with hq
    · cases h
      exact ⟨[], pks, rfl, rfl, hq, by simp⟩
    · obtain ⟨⟨pk', rest'⟩, h', heq⟩ := Option.map_eq_some_iff.mp h
      cases heq
      obtain ⟨before, after, rfl, rfl, hl, hb⟩ := ih h'
      refine ⟨q :: before, after, rfl, rfl, hl, fun x hx => ?_⟩
      rcases List.mem_cons.mp hx with rfl | hx
      · exact hq
      · exact hb x hx

theorem take_split {lane : Lane} {n' : Pairwise μ} {pk : Packet μ}
    (h : Network.take n lane = some (pk, n')) :
    ∃ before after, n.packets = before ++ pk :: after ∧
      n' = { n with packets := before ++ after } ∧
      ∀ q ∈ before, q.dest = pk.dest → q.sender ≠ pk.sender := by
  change n.take lane = some (pk, n') at h
  unfold take at h
  obtain ⟨⟨pk', rest⟩, h', heq⟩ := Option.map_eq_some_iff.mp h
  cases heq
  obtain ⟨before, after, hn, rfl, hl, hb⟩ := takeFirst_split h'
  refine ⟨before, after, hn, rfl, fun q hq hd hs => hb q hq ?_⟩
  rw [← hl]
  simp [laneOf, hd, hs]

end Pairwise

end Quiescence
