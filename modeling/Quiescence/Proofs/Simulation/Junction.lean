/-
# Two networks that carry the same traffic

A mailroom keeps one queue for each destination, a pairwise network one for each
sender and destination. A `Junction` is both at once: it keeps the packets that
wait in the order they were accepted, and lets those of one destination be taken
in that order, as the mailroom does. The first of a destination is also the first
of its sender there, so the pairwise network can take the same one.

* `Traffic`, `Logged`: what a network does, and a network that keeps a log of it.
* `Accounts`: what the log and the packets that wait say of each other.
* `Junction.carries_left`: a junction is a mailroom, as far as anyone can tell.
* `Junction.sends_right`, `Junction.take_right`: what it accepts and delivers, a
  pairwise network can.
-/
import Mathlib.Data.List.Basic
import Mathlib.Tactic.SplitIfs
import Quiescence.Network.Mailroom
import Quiescence.Network.Pairwise
import Quiescence.Proofs.Lanes
import Quiescence.Proofs.Simulation.Machines

namespace Quiescence

/-- What a network does. -/
inductive Traffic (μ : Type) where
  | accepted (packet : Packet μ)
  | delivered (packet : Packet μ)
  | killed (place : PlaceId)

namespace Traffic

variable {μ : Type}

/-- The packets accepted for a place, in order. -/
def acceptedFor (p : PlaceId) : List (Traffic μ) → List (Packet μ)
  | [] => []
  | .accepted pk :: ts => if pk.dest = p then pk :: acceptedFor p ts else acceptedFor p ts
  | _ :: ts => acceptedFor p ts

/-- The packets delivered to a place, in order. -/
def deliveredTo (p : PlaceId) : List (Traffic μ) → List (Packet μ)
  | [] => []
  | .delivered pk :: ts => if pk.dest = p then pk :: deliveredTo p ts else deliveredTo p ts
  | _ :: ts => deliveredTo p ts

/-- Nothing is accepted for a place after it was killed. -/
def Barred (ts : List (Traffic μ)) : Prop :=
  ts.Pairwise fun earlier later => ∀ pk, later = .accepted pk → earlier ≠ .killed pk.dest

variable {p : PlaceId} {ts ts' : List (Traffic μ)}

@[simp] theorem acceptedFor_append :
    acceptedFor p (ts ++ ts') = acceptedFor p ts ++ acceptedFor p ts' := by
  induction ts with
  | nil => rfl
  | cons t ts ih =>
    cases t <;> simp only [List.cons_append, acceptedFor, ih]
    split_ifs <;> rfl

@[simp] theorem deliveredTo_append :
    deliveredTo p (ts ++ ts') = deliveredTo p ts ++ deliveredTo p ts' := by
  induction ts with
  | nil => rfl
  | cons t ts ih =>
    cases t <;> simp only [List.cons_append, deliveredTo, ih]
    split_ifs <;> rfl

theorem Barred.append {t : Traffic μ} (h : Barred ts)
    (ht : ∀ pk, t = .accepted pk → .killed pk.dest ∉ ts) : Barred (ts ++ [t]) := by
  refine List.pairwise_append.mpr ⟨h, List.pairwise_singleton _ _, fun earlier he later hl pk hpk => ?_⟩
  rw [List.mem_singleton.mp hl] at hpk
  rintro rfl
  exact ht pk hpk he

end Traffic

/-- A network that keeps a log of what it does. -/
structure Logged (ν : Type → Type) (μ : Type) where
  net : ν μ
  /-- Oldest first. -/
  traffic : List (Traffic μ)

namespace Logged

variable {ν : Type → Type} [Network ν] {μ : Type}

instance : Network (Logged ν) where
  known n := Network.known n.net
  send n pk := (Network.send n.net pk).map fun net => ⟨net, n.traffic ++ [.accepted pk]⟩
  packets n := Network.packets n.net
  waiting n := Network.waiting n.net
  take n lane := (Network.take n.net lane).map fun out =>
    (out.1, ⟨out.2, n.traffic ++ [.delivered out.1]⟩)
  lane n := Network.lane n.net
  kill n p := (Network.kill n.net p).map fun net => ⟨net, n.traffic ++ [.killed p]⟩
  isDead n := Network.isDead n.net
  resize n known := ⟨Network.resize n.net known, n.traffic⟩

/-- The log can be forgotten. -/
theorem carries_net : Network.Carries (net : Logged ν μ → ν μ) where
  known _ := rfl
  send n pk := by
    show _ = ((Network.send n.net pk).map _).map _
    cases Network.send n.net pk <;> rfl
  waiting _ := rfl
  take n lane := by
    show _ = ((Network.take n.net lane).map _).map _
    cases Network.take n.net lane <;> rfl
  kill n p := by
    show _ = ((Network.kill n.net p).map _).map _
    cases Network.kill n.net p <;> rfl
  resize _ _ := rfl

end Logged

/-- The packets that wait are those accepted and not delivered, in order, and go to places there
are. The dead are those that were killed, and nothing was accepted for them after. -/
structure Accounts {μ : Type} (places : ℕ) (n : Pairwise μ) (ts : List (Traffic μ)) : Prop where
  known : n.known = places
  housed : ∀ pk ∈ n.packets, pk.dest.index < n.known
  queued : ∀ p, Traffic.acceptedFor p ts = Traffic.deliveredTo p ts ++ n.packets.filter (·.dest = p)
  dead : ∀ p, p ∈ n.dead ↔ .killed p ∈ ts
  barred : Traffic.Barred ts

namespace Pairwise

variable {μ : Type} {pks rest : List (Packet μ)} {pk : Packet μ} {d : PlaceId}

/-- Takes the first packet for a place out of a list. -/
def takeFor (d : PlaceId) : List (Packet μ) → Option (Packet μ × List (Packet μ))
  | [] => none
  | pk :: pks => if pk.dest = d then some (pk, pks) else
    (takeFor d pks).map fun out => (out.1, pk :: out.2)

/-- The packet taken is the first for the place. -/
theorem takeFor_split (h : takeFor d pks = some (pk, rest)) :
    ∃ before after, pks = before ++ pk :: after ∧ rest = before ++ after ∧ pk.dest = d ∧
      ∀ q ∈ before, q.dest ≠ d := by
  induction pks generalizing rest with
  | nil => cases h
  | cons q pks ih =>
    simp only [takeFor] at h
    split_ifs at h with hq
    · cases h
      exact ⟨[], pks, rfl, rfl, hq, by simp⟩
    · obtain ⟨⟨pk', rest'⟩, h', heq⟩ := Option.map_eq_some_iff.mp h
      cases heq
      obtain ⟨before, after, rfl, rfl, hd, hb⟩ := ih h'
      exact ⟨q :: before, after, rfl, rfl, hd, List.forall_mem_cons.mpr ⟨hq, hb⟩⟩

theorem filter_takeFor (h : takeFor d pks = some (pk, rest)) (p : PlaceId) :
    pks.filter (·.dest = p) = (if d = p then [pk] else []) ++ rest.filter (·.dest = p) := by
  obtain ⟨before, after, rfl, rfl, hd, hb⟩ := takeFor_split h
  by_cases hp : d = p
  · have hnone : before.filter (·.dest = p) = [] :=
      List.filter_eq_nil_iff.mpr fun q hq => by simpa [← hp] using hb q hq
    simp [List.filter_append, hnone, hd, hp]
  · simp [List.filter_append, hd, hp]

theorem takeFor_eq_none (h : takeFor d pks = none) : pks.filter (·.dest = d) = [] := by
  induction pks with
  | nil => rfl
  | cons q pks ih =>
    simp only [takeFor] at h
    split_ifs at h with hq
    rw [List.filter_cons_of_neg (by simpa using hq)]
    exact ih (Option.map_eq_none_iff.mp h)

/-- The first packet for a place is the first on its lane. -/
theorem takeFirst_takeFor (h : takeFor d pks = some (pk, rest)) :
    takeFirst (laneOf pk) pks = some (pk, rest) := by
  obtain ⟨before, after, rfl, rfl, hd, hb⟩ := takeFor_split h
  clear h
  induction before with
  | nil => simp [takeFirst]
  | cons q before ih =>
    have hq : laneOf q ≠ laneOf pk := fun he =>
      hb q (List.mem_cons_self ..) (by rw [← hd]; exact congrArg Lane.dest he)
    simp only [List.cons_append, takeFirst, if_neg hq,
      ih fun q hq => hb q (List.mem_cons_of_mem _ hq)]
    rfl

/-- A lane is listed with the number of packets on it. -/
theorem mem_tally {key k : PlaceId × PlaceId} {lanes : List ((PlaceId × PlaceId) × ℕ)} :
    k ∈ (tally key lanes).map Prod.fst ↔ k = key ∨ k ∈ lanes.map Prod.fst := by
  induction lanes with
  | nil => simp [tally]
  | cons lane lanes ih =>
    obtain ⟨k', n⟩ := lane
    simp only [tally]
    split_ifs with hk
    · subst hk
      simp
    · simp
    · simp only [List.map_cons, List.mem_cons, ih]
      exact or_left_comm

theorem mem_waiting {n : Pairwise μ} {lane : Lane} :
    lane ∈ (Network.waiting n).map Prod.fst ↔ ∃ pk ∈ n.packets, laneOf pk = lane := by
  have hfold : ∀ (pks : List (Packet μ)) (lanes : List ((PlaceId × PlaceId) × ℕ)) (k : PlaceId × PlaceId),
      k ∈ (pks.foldl (fun lanes p => tally (p.sender, p.dest) lanes) lanes).map Prod.fst ↔
        (∃ pk ∈ pks, (pk.sender, pk.dest) = k) ∨ k ∈ lanes.map Prod.fst := by
    intro pks
    induction pks with
    | nil => simp
    | cons pk pks ih =>
      intro lanes k
      rw [List.foldl_cons, ih, mem_tally, List.exists_mem_cons_iff, or_left_comm, or_assoc,
        eq_comm (a := k)]
  change lane ∈ (List.map _ (List.foldl _ [] n.packets)).map Prod.fst ↔ _
  rw [List.map_map]
  constructor
  · intro h
    obtain ⟨⟨k, c⟩, hm, rfl⟩ := List.mem_map.mp h
    rcases (hfold n.packets [] k).mp (List.mem_map_of_mem hm) with ⟨pk, hpk, rfl⟩ | h
    · exact ⟨pk, hpk, rfl⟩
    · cases h
  · rintro ⟨pk, hpk, rfl⟩
    obtain ⟨⟨k, c⟩, hm, hk⟩ := List.mem_map.mp ((hfold n.packets [] _).mpr (.inl ⟨pk, hpk, rfl⟩))
    refine List.mem_map.mpr ⟨_, hm, ?_⟩
    cases hk
    rfl

theorem waiting_eq_nil {n : Pairwise μ} : Network.waiting n = [] ↔ n.packets = [] := by
  simp only [List.eq_nil_iff_forall_not_mem]
  constructor
  · intro h pk hpk
    obtain ⟨lane, hl, -⟩ := List.mem_map.mp (mem_waiting.mpr ⟨pk, hpk, rfl⟩)
    exact h lane hl
  · intro h lane hl
    obtain ⟨pk, hpk, -⟩ := mem_waiting.mp (List.mem_map_of_mem hl)
    exact h pk hpk

theorem take_waiting {n : Pairwise μ} {lane : Lane}
    (h : lane ∈ (Network.waiting n).map Prod.fst) : Network.take n lane ≠ none := by
  obtain ⟨pk, hpk, rfl⟩ := mem_waiting.mp h
  change Option.map _ (takeFirst _ n.packets) ≠ none
  rw [ne_eq, Option.map_eq_none_iff]
  generalize n.packets = pks at hpk
  induction pks with
  | nil => cases hpk
  | cons q pks ih =>
    simp only [takeFirst]
    split_ifs with hq
    · exact not_false
    · have hpk := (List.mem_cons.mp hpk).resolve_left fun he => hq (he ▸ rfl)
      rw [Option.map_eq_none_iff]
      exact ih hpk

end Pairwise

/-- The lanes on which something waits are those of the inboxes that hold something. -/
theorem Mailroom.mem_waitingFrom {μ : Type} {lane : Lane} {i : ℕ} {boxes : List (Inbox (Packet μ))} :
    lane ∈ (waitingFrom i boxes).map Prod.fst ↔ ∃ j box, boxes[j]? = some box ∧ box.queue ≠ [] ∧
      lane = ⟨none, ⟨UInt32.ofNat (i + j)⟩⟩ := by
  induction boxes generalizing i with
  | nil => simp [waitingFrom]
  | cons box boxes ih =>
    have hcons : (∃ j b, (box :: boxes)[j]? = some b ∧ b.queue ≠ [] ∧
          lane = ⟨none, ⟨UInt32.ofNat (i + j)⟩⟩) ↔
        (box.queue ≠ [] ∧ lane = ⟨none, ⟨UInt32.ofNat i⟩⟩) ∨
          lane ∈ (waitingFrom (i + 1) boxes).map Prod.fst := by
      rw [ih]
      constructor
      · rintro ⟨_ | j, b, hb, hq, hl⟩
        · cases hb
          exact .inl ⟨hq, hl⟩
        · exact .inr ⟨j, b, hb, hq, by rw [hl, Nat.add_right_comm]; rfl⟩
      · rintro (⟨hq, hl⟩ | ⟨j, b, hb, hq, hl⟩)
        · exact ⟨0, box, rfl, hq, hl⟩
        · exact ⟨j + 1, b, hb, hq, by rw [hl, Nat.add_right_comm]; rfl⟩
    rw [hcons]
    simp only [waitingFrom]
    split
    · rename_i hq
      simp [hq]
    · rename_i hq
      simp [hq]

namespace Accounts

variable {μ : Type} {places : ℕ} {n : Pairwise μ} {ts : List (Traffic μ)}

theorem start (places : ℕ) : Accounts places (.empty places : Pairwise μ) [] where
  known := rfl
  housed := nofun
  queued _ := rfl
  dead _ := ⟨nofun, nofun⟩
  barred := .nil

theorem accept (h : Accounts places n ts) {pk : Packet μ} (hk : pk.dest.index < n.known)
    (hd : pk.dest ∉ n.dead) :
    Accounts places { n with packets := n.packets ++ [pk] } (ts ++ [.accepted pk]) where
  known := h.known
  housed q hq := by
    rcases List.mem_append.mp hq with hq | hq
    · exact h.housed q hq
    · rwa [List.mem_singleton.mp hq]
  queued p := by
    have hq := h.queued p
    by_cases hp : pk.dest = p <;>
      simp [Traffic.acceptedFor, Traffic.deliveredTo, List.filter_append, hp, hq]
  dead p := by simpa using h.dead p
  barred := h.barred.append fun q hq hkilled => by
    cases hq
    exact hd ((h.dead _).mpr hkilled)

theorem deliver (h : Accounts places n ts) {d : PlaceId} {pk : Packet μ} {rest : List (Packet μ)}
    (ht : Pairwise.takeFor d n.packets = some (pk, rest)) :
    Accounts places { n with packets := rest } (ts ++ [.delivered pk]) where
  known := h.known
  housed q hq := by
    obtain ⟨before, after, hp, rfl, -⟩ := Pairwise.takeFor_split ht
    refine h.housed q ?_
    rw [hp]
    rcases List.mem_append.mp hq with hq | hq
    · exact List.mem_append_left _ hq
    · exact List.mem_append_right _ (List.mem_cons_of_mem _ hq)
  queued p := by
    obtain ⟨-, -, -, -, hd, -⟩ := Pairwise.takeFor_split ht
    have hq := h.queued p
    rw [Pairwise.filter_takeFor ht] at hq
    by_cases hp : d = p <;> simp [Traffic.acceptedFor, Traffic.deliveredTo, hd, hp, hq]
  dead p := by simpa using h.dead p
  barred := h.barred.append nofun

theorem kill (h : Accounts places n ts) (p : PlaceId) : Accounts places (n.kill p) (ts ++ [.killed p]) where
  known := h.known
  housed := h.housed
  queued q := by
    rw [Traffic.acceptedFor_append, Traffic.deliveredTo_append, h.queued q]
    simp [Traffic.acceptedFor, Traffic.deliveredTo, Pairwise.kill]
  dead q := by
    simp only [Pairwise.kill, List.mem_cons, List.mem_append, List.not_mem_nil, or_false,
      Traffic.killed.injEq, h.dead q]
    exact or_comm
  barred := h.barred.append nofun

end Accounts

/-! ### The two networks as one -/

/-- A number of places, with the packets that wait and the log. -/
structure Junction (places : ℕ) (μ : Type) where
  pairs : Pairwise μ
  traffic : List (Traffic μ)
  accounts : Accounts places pairs traffic

namespace Junction

variable {places : ℕ} {μ : Type}

/-- Nothing has happened. -/
def empty (places : ℕ) : Junction places μ := ⟨.empty places, [], .start places⟩

/-- Something went to the inbox at that position, or closed it. -/
def touched (i : ℕ) : Traffic μ → Bool
  | .accepted pk => pk.dest.index = i
  | .delivered _ => false
  | .killed p => p.index = i

/-- The packets for one place, as an inbox. -/
def inbox (n : Junction places μ) (i : ℕ) : Inbox (Packet μ) where
  queue := n.pairs.packets.filter (·.dest.index = i)
  closed := n.pairs.dead.any (·.index = i)
  permit := n.traffic.any (touched i)
  receivers := []

/-- The packets that wait, one inbox for each place. -/
def mailroom (n : Junction places μ) : Mailroom μ := ⟨(List.range n.pairs.known).map n.inbox⟩

def left (n : Junction places μ) : Logged Mailroom μ := ⟨n.mailroom, n.traffic⟩

def right (n : Junction places μ) : Logged Pairwise μ := ⟨n.pairs, n.traffic⟩

def send (n : Junction places μ) (pk : Packet μ) : Except PlaceError (Junction places μ) :=
  if hk : pk.dest.index < n.pairs.known then
    if hd : pk.dest ∈ n.pairs.dead then .error (.dead pk.dest)
    else .ok ⟨{ n.pairs with packets := n.pairs.packets ++ [pk] }, n.traffic ++ [.accepted pk],
      n.accounts.accept hk hd⟩
  else .error (.unknown pk.dest n.pairs.known)

def take (n : Junction places μ) (lane : Lane) : Option (Packet μ × Junction places μ) :=
  match h : Pairwise.takeFor lane.dest n.pairs.packets with
  | none => none
  | some (pk, rest) => some (pk, ⟨{ n.pairs with packets := rest }, n.traffic ++ [.delivered pk],
    n.accounts.deliver h⟩)

def kill (n : Junction places μ) (p : PlaceId) : Except PlaceError (Junction places μ) :=
  if p.index < n.pairs.known then
    .ok ⟨n.pairs.kill p, n.traffic ++ [.killed p], n.accounts.kill p⟩
  else .error (.unknown p n.pairs.known)

instance : Network (Junction places) where
  known n := n.pairs.known
  send := send
  packets n := n.pairs.packets
  waiting n := n.mailroom.waiting
  take := take
  lane _ _ dest := ⟨none, dest⟩
  kill := kill
  isDead n p := n.mailroom.isDead p
  resize n _ := n

variable {n n' : Junction places μ} {i : ℕ}

/-! ### The mailroom -/

theorem getElem?_mailroom (n : Junction places μ) (i : ℕ) :
    n.mailroom.inboxes[i]? = if i < n.pairs.known then some (n.inbox i) else none := by
  unfold mailroom
  rw [List.getElem?_map]
  split_ifs with h
  · rw [List.getElem?_range h]
    rfl
  · rw [List.getElem?_eq_none (by simpa using h)]
    rfl

theorem known_mailroom (n : Junction places μ) : n.mailroom.known = n.pairs.known := by
  simp [Mailroom.known, mailroom]

/-- One inbox changes. -/
theorem mailroom_set (hk : n'.pairs.known = n.pairs.known)
    (h : ∀ j ≠ i, n'.inbox j = n.inbox j) :
    (⟨n.mailroom.inboxes.set i (n'.inbox i)⟩ : Mailroom μ) = n'.mailroom := by
  refine congrArg Mailroom.mk (List.ext_getElem? fun j => ?_)
  change (n.mailroom.inboxes.set i (n'.inbox i))[j]? = n'.mailroom.inboxes[j]?
  rw [List.getElem?_set, getElem?_mailroom, getElem?_mailroom, hk]
  by_cases hij : i = j
  · subst hij
    simp [mailroom]
  · rw [if_neg hij, h j (Ne.symm hij)]

theorem left_empty (places : ℕ) : (empty places : Junction places μ).left = ⟨.empty places, []⟩ := by
  refine congrArg (Logged.mk · []) (congrArg Mailroom.mk (List.ext_getElem? fun i => ?_))
  change (empty places : Junction places μ).mailroom.inboxes[i]? = _
  rw [getElem?_mailroom, List.getElem?_replicate]
  rfl

theorem closed_inbox (n : Junction places μ) (p : PlaceId) : (n.inbox p.index).closed = decide (p ∈ n.pairs.dead) := by
  rw [Bool.eq_iff_iff]
  simp [inbox]

theorem queue_inbox (n : Junction places μ) (p : PlaceId) :
    (n.inbox p.index).queue = n.pairs.packets.filter (·.dest = p) := by
  simp [inbox]

theorem take_none {lane : Lane} (ht : Pairwise.takeFor lane.dest n.pairs.packets = none) :
    n.take lane = none := by
  unfold Junction.take
  split
  · rfl
  · rename_i ht'
    rw [ht] at ht'
    cases ht'

theorem take_some {lane : Lane} {pk : Packet μ} {rest : List (Packet μ)}
    (ht : Pairwise.takeFor lane.dest n.pairs.packets = some (pk, rest)) :
    n.take lane = some (pk, ⟨_, _, n.accounts.deliver ht⟩) := by
  unfold Junction.take
  split
  · rename_i ht'
    rw [ht] at ht'
    cases ht'
  · rename_i ht'
    obtain ⟨rfl, rfl⟩ := Prod.mk.inj (Option.some.inj (ht.symm.trans ht'))
    rfl

/-- A junction is a mailroom, as far as anyone can tell. -/
theorem carries_left : Network.Carries (left : Junction places μ → Logged Mailroom μ) where
  known n := n.known_mailroom
  send n pk := by
    change (n.mailroom.send pk).map _ = (n.send pk).map left
    have hclosed := n.closed_inbox pk.dest
    unfold Mailroom.send Junction.send
    rw [getElem?_mailroom, known_mailroom]
    split_ifs with hk hd
    · simp [Inbox.send, hclosed, hd, Except.map]
    · have hsend : (n.inbox pk.dest.index).send pk =
          .ok (inbox ⟨_, _, n.accounts.accept hk hd⟩ pk.dest.index) := by
        unfold Inbox.send
        rw [if_neg (by simp [hclosed, hd])]
        simp [inbox, Inbox.wakeOne, Inbox.wakeFirst, touched]
      simp only [hsend]
      refine congrArg Except.ok (congrArg (Logged.mk · _) (mailroom_set rfl fun j hj => ?_))
      simp [inbox, touched, Ne.symm hj]
    · rfl
  waiting _ := rfl
  take n lane := by
    change (n.mailroom.take lane).map _ = (n.take lane).map _
    have hqueue := n.queue_inbox lane.dest
    unfold Mailroom.take
    rw [getElem?_mailroom]
    cases ht : Pairwise.takeFor lane.dest n.pairs.packets with
    | none =>
      have hnone : (n.inbox lane.dest.index).tryReceive = none := by
        simp only [Inbox.tryReceive, hqueue, Pairwise.takeFor_eq_none ht]
      rw [take_none ht]
      split_ifs
      · simp only [hnone]
        rfl
      · rfl
    | some out =>
      obtain ⟨pk, rest⟩ := out
      obtain ⟨before, after, hp, hrest, hd, -⟩ := Pairwise.takeFor_split ht
      have hk : lane.dest.index < n.pairs.known :=
        hd ▸ n.accounts.housed pk (by rw [hp]; exact List.mem_append_right _ (List.mem_cons_self ..))
      have hreceive : (n.inbox lane.dest.index).tryReceive =
          some (pk, inbox ⟨_, _, n.accounts.deliver ht⟩ lane.dest.index) := by
        rw [Pairwise.filter_takeFor ht, if_pos rfl] at hqueue
        simp only [Inbox.tryReceive, hqueue, List.singleton_append]
        simp [inbox, touched]
      rw [take_some ht]
      simp only [if_pos hk, hreceive, Option.map_some]
      refine congrArg (fun net => some (pk, Logged.mk net _)) (mailroom_set rfl fun j hj => ?_)
      simp [inbox, touched, hp, hrest, hd, Ne.symm hj]
  kill n p := by
    change (n.mailroom.kill p).map _ = (n.kill p).map left
    unfold Mailroom.kill Junction.kill
    rw [getElem?_mailroom, known_mailroom]
    split_ifs with hk
    · have hclose : (n.inbox p.index).close = inbox ⟨_, _, n.accounts.kill p⟩ p.index := by
        simp [inbox, Inbox.close, Inbox.wakeAll, Inbox.wakeOne, Inbox.wakeFirst, touched, Pairwise.kill]
      simp only [hclose]
      refine congrArg Except.ok (congrArg (Logged.mk · _) (mailroom_set rfl fun j hj => ?_))
      simp [inbox, touched, Pairwise.kill, Ne.symm hj]
    · rfl
  resize _ _ := rfl

theorem mem_waiting {lane : Lane} : lane ∈ (Network.waiting n).map Prod.fst ↔
    ∃ pk ∈ n.pairs.packets, lane = ⟨none, pk.dest⟩ := by
  have hplace : ∀ p : PlaceId, (⟨UInt32.ofNat p.index⟩ : PlaceId) = p := fun p =>
    congrArg PlaceId.mk (by simp [PlaceId.index])
  change lane ∈ (Mailroom.waitingFrom 0 n.mailroom.inboxes).map Prod.fst ↔ _
  simp only [Mailroom.mem_waitingFrom, getElem?_mailroom, Nat.zero_add]
  constructor
  · rintro ⟨j, box, hbox, hq, rfl⟩
    split_ifs at hbox
    cases hbox
    obtain ⟨pk, hpk⟩ := List.exists_mem_of_ne_nil _ hq
    obtain ⟨hpk, hj⟩ := List.mem_filter.mp hpk
    exact ⟨pk, hpk, by rw [← of_decide_eq_true hj, hplace]⟩
  · rintro ⟨pk, hpk, rfl⟩
    refine ⟨pk.dest.index, _, if_pos (n.accounts.housed pk hpk), ?_, by rw [hplace]⟩
    exact List.ne_nil_of_mem (List.mem_filter.mpr ⟨hpk, decide_eq_true rfl⟩)

theorem waiting_eq_nil : Network.waiting n = [] ↔ n.pairs.packets = [] := by
  simp only [List.eq_nil_iff_forall_not_mem]
  constructor
  · intro h pk hpk
    obtain ⟨lane, hl, -⟩ := List.mem_map.mp (mem_waiting.mpr ⟨pk, hpk, rfl⟩)
    exact h lane hl
  · intro h lane hl
    obtain ⟨pk, hpk, -⟩ := mem_waiting.mp (List.mem_map_of_mem hl)
    exact h pk hpk

/-- The packet taken from a lane on which something waits. -/
theorem take_waiting {lane : Lane} (h : lane ∈ (Network.waiting n).map Prod.fst) :
    ∃ pk n', Network.take n lane = some (pk, n') ∧ pk ∈ n.pairs.packets := by
  obtain ⟨pk, hpk, rfl⟩ := mem_waiting.mp h
  cases ht : Pairwise.takeFor pk.dest n.pairs.packets with
  | none =>
    have hmem : pk ∈ n.pairs.packets.filter (·.dest = pk.dest) :=
      List.mem_filter.mpr ⟨hpk, decide_eq_true rfl⟩
    rw [Pairwise.takeFor_eq_none ht] at hmem
    cases hmem
  | some out =>
    obtain ⟨before, after, hp, -⟩ := Pairwise.takeFor_split ht
    exact ⟨out.1, _, take_some ht, by rw [hp]; exact List.mem_append_right _ (List.mem_cons_self ..)⟩

/-! ### The pairwise network -/

theorem sends_right : Network.Sends (right : Junction places μ → Logged Pairwise μ) where
  known _ := rfl
  send n pk := by
    change (n.pairs.send pk).map _ = (n.send pk).map right
    unfold Pairwise.send Junction.send
    split_ifs <;> rfl

theorem kill_right {p : PlaceId} (hp : p.index < n.pairs.known) :
    Network.kill n.right p = (Network.kill n p).map right := by
  change _ = (n.kill p).map right
  unfold Junction.kill
  rw [if_pos hp]
  rfl

theorem take_right {lane : Lane} {pk : Packet μ} (h : Network.take n lane = some (pk, n')) :
    Network.take n.right (Pairwise.laneOf pk) = some (pk, n'.right) := by
  change n.take lane = some (pk, n') at h
  unfold Junction.take at h
  split at h
  · cases h
  · rename_i ht
    cases h
    change (n.pairs.take _).map _ = _
    unfold Pairwise.take
    rw [Pairwise.takeFirst_takeFor ht]
    rfl

end Junction

end Quiescence
