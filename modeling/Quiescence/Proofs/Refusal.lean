/-
# A hand-off that is refused leaves no trace in the accounts

A task that cannot be sent has been counted by each of its scopes, in whatever
state their counters were, and is taken back by each. It may be that a scope got
its identity on the way, and so became the root of one that other places may
know of; that slots were made, or more of them; and that the slot of the target
held less than nothing before.

* `Network.Gated`: networks refuse what is meant for a place that is dead or
  not there, and say which.
* `Retracted`: what is left of a hand-off that was refused.
* `hand_off_refused`: this is all, in every run.
-/
import Quiescence.Network.Mailroom
import Quiescence.Network.Pairwise
import Quiescence.Proofs.Refusal.Exact
import Quiescence.Proofs.Refusal.Naming
import Quiescence.Proofs.Refusal.Recount

namespace Quiescence

/-- Why a network refuses a place that it does refuse. -/
def Network.reason {ν : Type → Type} [Network ν] {μ : Type} (n : ν μ) (p : PlaceId) : PlaceError :=
  if p.index < Network.known n then .dead p else .unknown p (Network.known n)

/-- The network refuses what is sent to places that are dead or not there. -/
class Network.Gated (ν : Type → Type) [Network ν] : Prop where
  send_refused {μ : Type} (n : ν μ) (pk : Packet μ) :
    Network.known n ≤ pk.dest.index ∨ Network.isDead n pk.dest = true →
      Network.send n pk = .error (Network.reason n pk.dest)

instance : Network.Gated Pairwise where
  send_refused n pk h := by
    change n.known ≤ pk.dest.index ∨ decide (pk.dest ∈ n.dead) = true at h
    change n.send pk = .error (if pk.dest.index < n.known then _ else _)
    unfold Pairwise.send
    split_ifs with hlt hdead
    · rfl
    · exact absurd h (by simp [hdead, hlt])
    · rfl

instance : Network.Gated Mailroom where
  send_refused n pk h := by
    change n.inboxes.length ≤ pk.dest.index ∨ n.isDead pk.dest = true at h
    change n.send pk = .error (if pk.dest.index < n.inboxes.length then _ else _)
    unfold Mailroom.isDead at h
    unfold Mailroom.send
    split_ifs with hlt
    · rw [List.getElem?_eq_getElem hlt] at h ⊢
      have hclosed : n.inboxes[pk.dest.index].closed = true := h.resolve_left (not_le.mpr hlt)
      simp [Inbox.send, hclosed]
    · rw [List.getElem?_eq_none (not_lt.mp hlt)]
      rfl

namespace World

variable {ν : Type → Type} {β : Type} {w w' u : World ν β} {g : Lineage} {s : Serial} {i : Instance}
  {fs : List Serial} {target : PlaceId}

/-- What is left of a hand-off that was refused. No message is on its way and no task waits that was
not there before, and every instance counts as it did. Listed instances without an identity have each
got a new one of their place, are bound to it, and are roots. -/
structure Retracted (fs : List Serial) (w w' : World ν β) : Prop where
  net : w'.net = w.net
  jobs : w'.jobs = w.jobs
  bare : w'.sites.map Site.bare = w.sites.map Site.bare
  homes : w'.tableHome? = w.tableHome?
  others : ∀ s ∉ fs, w'.instance? s = w.instance? s
  restored : ∀ s i, w.instance? s = some i → ∃ j, w'.instance? s = some j ∧ i.Restored j
  named : ∀ s i, s ∈ fs → w.instance? s = some i → i.id = none → ∃ j id,
    w'.instance? s = some j ∧ j.id = some id ∧ j.role = .root ∧ id.home = i.place ∧
      (∀ t, w.idOf? t ≠ some id) ∧ (∀ q, w.bound? q id = none) ∧
      w'.bound? id.home id = some (.scope s)
  /-- No other binding has changed. -/
  bound : ∀ q id, w'.bound? q id = w.bound? q id ∨
    ∃ s ∈ fs, w.idOf? s = none ∧ w'.idOf? s = some id ∧ id.home = q
  /-- And no other identity was handed out. -/
  next : ∀ q n, w.nextOf? q = some n →
    ∃ n', w'.nextOf? q = some n' ∧ n'.toNat = n.toNat + (w.unnamed fs q).card

/-- No place has bound an identity that no instance has. -/
theorem Descended.unbound (h : Descended w g) {id : GlobalId} (hid : ∀ t, w.idOf? t ≠ some id)
    (q : PlaceId) : w.bound? q id = none := by
  refine Option.eq_none_iff_forall_ne_some.mpr fun b hb => ?_
  obtain ⟨s, -, hs, -⟩ := h.registered q id b hb
  exact hid s hs

/-- An instance keeps what it has but for its identity, which it may get before. -/
theorem Christened.instance? (h : Christened fs w u) (hi : w.instance? s = some i) :
    u.instance? s = some i ∨
      ∃ id, u.instance? s = some { i with id := some id } ∧ i.id = none ∧ id.home = i.place := by
  by_cases hs : s ∉ fs ∨ w.idOf? s ≠ none
  · exact .inl ((h.kept s hs).trans hi)
  · rw [not_or, not_not, not_not] at hs
    have hid : i.id = none := (idOf?_eq hi).symm.trans hs.2
    obtain ⟨id, hj, hhome, -⟩ := h.named s i hs.1 hi hid
    exact .inr ⟨id, hj, hid, hhome⟩

variable [Network ν]

theorem Christened.retracted (hc : Christened fs w u) (hd : Descended w g) (hx : w.AllExact)
    (target : PlaceId) : Retracted fs w ((u.spawnAll fs target).unspawnAll fs target) := by
  have hrec := ((Recounts.refl fs u).spawnAll target).unspawnAll target
  have hrestored := fun s i (hi : u.instance? s = some i) => restored_retract u fs target hi
  generalize (u.spawnAll fs target).unspawnAll fs target = v at hrec hrestored
  refine
    { net := hrec.net.trans hc.net
      jobs := hrec.jobs.trans hc.jobs
      bare := by rw [hrec.sites, hc.bare]
      homes := by rw [← hc.homes]; unfold tableHome?; rw [hrec.tables]
      others := fun s hs => (hrec.others s hs).trans (hc.kept s (.inl hs))
      restored := fun s i hi => ?_
      named := fun s i hs hi hin => ?_
      bound := fun q id => ?_
      next := ?_ }
  · rcases hc.instance? hi with hu | ⟨id, hu, hin, hhome⟩
    · obtain ⟨j, hj, hij, -⟩ := hrestored s i hu (hx s i hi)
      exact ⟨j, hj, hij⟩
    · have hr : i.remoteId? = none := by simp [Instance.remoteId?, hin]
      obtain ⟨j, hj, hij, -⟩ := hrestored s _ hu fun _ => hx s i hi hr
      exact ⟨j, hj, hij.of_named hin hhome⟩
  · obtain ⟨id, hu, hhome, hnew, hb⟩ := hc.named s i hs hi hin
    have hr : i.remoteId? = none := by simp [Instance.remoteId?, hin]
    obtain ⟨j, hj, hij, hjid⟩ := hrestored s _ hu fun _ => hx s i hi hr
    refine ⟨j, id, hj, hjid, ?_, hhome, hnew, hd.unbound hnew, by rw [hrec.bound?, hb]⟩
    have hp : j.place = i.place := hij.place
    simp [Instance.role, hjid, hp, GlobalId.isHome, hhome]
  · rw [hrec.bound?, hrec.idOf?]
    rcases hc.bound q id with hb | ⟨s, hs, hn, hsid, hhome, -⟩
    · exact .inl hb
    · exact .inr ⟨s, hs, hn, hsid, hhome⟩
  · unfold nextOf?
    rw [hrec.tables]
    exact hc.next

/-- In every run: a task handed over to another place that is dead or not there, and registered with
whatever instances, of this place or others, at home or away, some of them more than once, comes back
with the reason that the network gives, if no place runs out of identities by it. -/
theorem hand_off_refused [Network.Gated ν] {net : ν (Message β)} {places : ℕ} {kind : ScopeKind}
    {spins : ℕ} (hplaces : places ≤ UInt32.size)
    (h : Follows (start net places kind spins) .start w g) {t : Task β} {p : PlaceId}
    (hp : target ≠ p) (hm : ∀ s ∈ t.finishes, (w.instance? s).isSome) (hs : w.Spare t.finishes)
    (hr : w.known ≤ target.index ∨ Network.isDead w.net target = true) :
    (∀ m, w.send p target m = .error (Network.reason w.net target)) ∧
    ∃ w', w.spawnAt t p target = (.error (.place (Network.reason w.net target)), w') ∧
      Retracted t.finishes w w' := by
  have hstart := descended_start net places kind spins hplaces
  have hd : Descended w g := hstart.follows h
  have hx : w.AllExact := (allExact_start net places kind spins).follows hstart h
  have hsend : ∀ v : World ν β, v.net = w.net → ∀ m,
      v.send p target m = .error (Network.reason w.net target) := fun v hv m => by
    rw [World.send, hv, Network.Gated.send_refused w.net ⟨p, target, m⟩ hr]
  obtain ⟨tokens, u, hprep, hc⟩ := hd.prepareAll_spec hm hs
  have hnet : (u.spawnAll t.finishes target).net = w.net :=
    (still_spawnAll u t.finishes target).net.trans hc.net
  refine ⟨hsend w rfl, _, ?_, hc.retracted hd hx target⟩
  simp only [spawnAt, if_neg hp, hprep, hsend _ hnet]

/-- Two scopes of place 0 and one of place 1. The first has an instance at place 1, and has been told
of the end of a task there before its spawn. Then place 1 dies. -/
def severed : World Pairwise Unit :=
  let opened := (((start (Pairwise.empty 2) 2 .plain 0).openScope ⟨0⟩ .plain).2.openScope
    ⟨0⟩ .plain).2.openScope ⟨1⟩ .plain
  let named := (opened.2.prepareTransfer 0).2
  let joined := (named.accept ⟨⟨⟨0⟩, 0⟩, .plain⟩ ⟨1⟩).2.update 0 [0, -1]
  { joined with net := joined.net.kill ⟨1⟩ }

/-- A task of all scopes, the first of them three times: by its root, by its instance at place 1, and
by its root again. -/
def ofAll : Task Unit := ⟨[0, 3, 1, 2, 0], ⟨0⟩, ()⟩

/-- Neither the place that died nor the last that can be named takes the task. -/
theorem hand_off_refused_severed : ∃ g,
    Follows (start (Pairwise.empty 2) 2 .plain 0) .start severed g ∧
    (∀ s ∈ ofAll.finishes, (severed.instance? s).isSome) ∧ severed.Spare ofAll.finishes ∧
    (Network.isDead severed.net ⟨1⟩ = true ∧
      ∃ w', severed.spawnAt ofAll ⟨0⟩ ⟨1⟩ = (.error (.place (.dead ⟨1⟩)), w') ∧
        Retracted ofAll.finishes severed w') ∧
    (severed.known ≤ PlaceId.index ⟨4294967295⟩ ∧
      ∃ w', severed.spawnAt ofAll ⟨0⟩ ⟨4294967295⟩ =
          (.error (.place (.unknown ⟨4294967295⟩ 2)), w') ∧
        Retracted ofAll.finishes severed w') := by
  have h0 : Follows (start (Pairwise.empty 2) 2 .plain 0 : World Pairwise Unit) .start _ _ := .refl
  have h1 := (h0.step (.openScope _ _ ⟨0⟩ .plain rfl)).step (.openScope _ _ ⟨0⟩ .plain rfl)
  have h2 := (h1.step (.openScope _ _ ⟨1⟩ .plain rfl)).step (.prepareTransfer _ _ 0)
  have h3 := h2.step (.accept _ _ 0 ⟨⟨⟨0⟩, 0⟩, .plain⟩ ⟨1⟩ (List.mem_cons_self ..) rfl)
  have h4 := (h3.step (.update _ _ 0 [0, -1])).step (.elsewhere _ _ severed rfl rfl)
  have hm : ∀ s ∈ ofAll.finishes, (severed.instance? s).isSome := by decide
  have hs : severed.Spare ofAll.finishes := spare_of_length (by decide)
  have hdead : Network.isDead severed.net ⟨1⟩ = true := by decide
  have hfar : severed.known ≤ PlaceId.index ⟨4294967295⟩ := by decide
  exact ⟨_, h4, hm, hs,
    ⟨hdead, (hand_off_refused (by decide) h4 (t := ofAll) (p := ⟨0⟩) (by decide) hm hs (.inr hdead)).2⟩,
    hfar, (hand_off_refused (by decide) h4 (t := ofAll) (p := ⟨0⟩) (by decide) hm hs (.inl hfar)).2⟩

end World

end Quiescence
