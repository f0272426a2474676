/-
# A mailroom does what a pairwise network can do

A world over a mailroom, one inbox for each destination, goes through nothing
that a world with a queue for each sender and destination could not: whatever the
schedule of the one, the other has a schedule by which it makes the same moves, in
the same order, from one state to the next (`mailroom_refines_pairwise`).

Both are read off one run over a junction. To the left it is the run over the
mailroom, with the schedule it has (`Machine.runFor_onto`). To the right each
choice is made anew: what the mailroom delivers, or the task that it lets begin,
stands somewhere in the pairwise network's list of what can happen next
(`Machine.tick_right`).
-/
import Quiescence.Proofs.Simulation.Junction
import Quiescence.Proofs.Simulation.Within

namespace Quiescence

open Junction (left right)

namespace Junction

variable {places : ℕ} {μ : Type}

/-- The pairwise network without its log. -/
def plain (n : Junction places μ) : Pairwise μ := n.pairs

end Junction

namespace Machine

variable {places : ℕ} {α : Type} {t t' : Machine (Junction places) α}

/-! ### The choices of the schedule -/

/-- From a point on, the schedule begins with these numbers. -/
def Gives (schedule : List ℕ) (cursor : ℕ) (picks : List ℕ) : Prop :=
  ∀ j k, picks[j]? = some k → schedule[(cursor + j) % schedule.length]? = some k

theorem Gives.self (picks : List ℕ) : Gives picks 0 picks := fun j k hj => by
  have hlt : j < picks.length := (List.getElem?_eq_some_iff.mp hj).1
  rw [Nat.zero_add, Nat.mod_eq_of_lt hlt, hj]

theorem Gives.append {schedule : List ℕ} {cursor : ℕ} {picks picks' : List ℕ}
    (h : Gives schedule cursor (picks ++ picks')) :
    Gives schedule cursor picks ∧ Gives schedule (cursor + picks.length) picks' := by
  constructor
  · intro j k hj
    have hlt : j < picks.length := (List.getElem?_eq_some_iff.mp hj).1
    exact h j k (by rw [List.getElem?_append_left hlt, hj])
  · intro j k hj
    have hk := h (picks.length + j) k (by rw [List.getElem?_append_right (by omega)]; simpa using hj)
    rwa [← Nat.add_assoc] at hk

section Choice

variable {ν : Type → Type} {m m' : Machine ν α}

theorem choice_lt (m : Machine ν α) {n : ℕ} (hn : 0 < n) : m.choice n < n := by
  unfold Machine.choice
  split
  · exact Nat.mod_lt _ hn
  · exact hn

variable [Network ν]

theorem ready_eq_nil {β : Type} {w : World ν β} :
    w.ready = [] ↔ Network.waiting w.net = [] ∧ w.jobs = [] := by
  simp [World.ready]

theorem tick_of_nothing (h : m.world.ready = []) : m.tick = none := by
  unfold Machine.tick
  simp only [h, List.getElem?_nil]

/-- Unless nothing can happen, something that can is let happen. -/
theorem tick_of_ready (h : m.world.ready ≠ []) :
    ∃ r ∈ m.world.ready, m.tick = { m with cursor := m.cursor + 1 }.happen r := by
  have hlt := m.choice_lt (List.length_pos_of_ne_nil h)
  refine ⟨_, List.getElem_mem hlt, ?_⟩
  unfold Machine.tick
  simp only [List.getElem?_eq_getElem hlt]

/-- The schedule can pick any of the things that can happen. -/
theorem tick_of_pick {k : ℕ} {r : World.Ready} (hr : m.world.ready[k]? = some r)
    (hs : m.schedule[m.cursor % m.schedule.length]? = some k) :
    m.tick = { m with cursor := m.cursor + 1 }.happen r := by
  have hlt : k < m.world.ready.length := (List.getElem?_eq_some_iff.mp hr).1
  have hchoice : m.choice m.world.ready.length = k := by
    unfold Machine.choice
    rw [hs]
    exact Nat.mod_eq_of_lt hlt
  unfold Machine.tick
  simp only [hchoice, hr]

/-- Where lanes on which something waits can be taken from, something happens unless nothing can. -/
theorem ready_of_tick (ht : ∀ lane ∈ (Network.waiting m.world.net).map Prod.fst,
      Network.take m.world.net lane ≠ none) (h : m.tick = none) : m.world.ready = [] := by
  by_contra hne
  obtain ⟨r, hmem, htick⟩ := tick_of_ready hne
  rw [h] at htick
  rcases List.mem_append.mp hmem with hr | hr
  · obtain ⟨⟨lane, c⟩, hl, rfl⟩ := List.mem_map.mp hr
    obtain ⟨out, ho⟩ := Option.ne_none_iff_exists'.mp (ht lane (List.mem_map_of_mem hl))
    simp [Machine.happen, World.deliver, ho] at htick
  · obtain ⟨i, hi, rfl⟩ := List.mem_map.mp hr
    have hjob := List.getElem?_eq_getElem (List.mem_range.mp hi)
    simp [Machine.happen, World.takeJob, hjob] at htick

end Choice

theorem ready_plain (schedule : List ℕ) (cursor : ℕ) :
    (t.recast Junction.plain schedule cursor).world.ready = [] ↔ t.world.ready = [] := by
  rw [ready_eq_nil, ready_eq_nil, Junction.waiting_eq_nil]
  exact and_congr_left' Pairwise.waiting_eq_nil

theorem ready_of_tick_junction (h : t.tick = none) : t.world.ready = [] :=
  ready_of_tick (fun lane hl => by
    obtain ⟨pk, n', ht, -⟩ := Junction.take_waiting hl
    rw [ht]
    nofun) h

/-- What happens at the left can happen at the right. -/
theorem happen_right {r : World.Ready} (hr : r ∈ t.world.ready) (ht : t.happen r = some t') :
    ∃ r', (∀ schedule cursor, r' ∈ (t.recast right schedule cursor).world.ready) ∧
      ∀ schedule cursor, (t.recast right schedule cursor).happen r' = some (t'.recast right schedule cursor) := by
  rcases List.mem_append.mp hr with hr | hr
  · obtain ⟨⟨lane, c⟩, hl, rfl⟩ := List.mem_map.mp hr
    obtain ⟨pk, n', htake, hpk⟩ := Junction.take_waiting (List.mem_map_of_mem hl)
    refine ⟨.delivery (Pairwise.laneOf pk), fun schedule cursor => ?_, fun schedule cursor => ?_⟩
    · obtain ⟨out, ho, hlane⟩ := List.mem_map.mp (Pairwise.mem_waiting.mpr ⟨pk, hpk, rfl⟩)
      exact List.mem_append_left _ (List.mem_map.mpr ⟨out, ho, congrArg _ hlane⟩)
    · have hdeliver : t.world.deliver lane =
          some (({ t.world with net := n' } : World _ _).receive pk.dest pk.content) := by
        unfold World.deliver
        rw [htake]
      simp only [Machine.happen, hdeliver, Option.map_some, Option.some.injEq] at ht
      subst ht
      have hreceive := World.receive_recast Junction.sends_right { t.world with net := n' } pk.dest pk.content
      simp only [Machine.happen, World.deliver, world_recast, World.net_recast, Junction.take_right htake]
      exact congrArg (fun w => some { t.recast right schedule cursor with world := w }) hreceive
  · obtain ⟨i, hi, rfl⟩ := List.mem_map.mp hr
    refine ⟨.job i, fun schedule cursor => List.mem_append_right _ (List.mem_map.mpr ⟨i, hi, rfl⟩),
      fun schedule cursor => ?_⟩
    obtain ⟨⟨job, w⟩, hw, rfl⟩ := Option.map_eq_some_iff.mp ht
    simp only [Machine.happen, world_recast, World.takeJob_recast, hw, Option.map_some]
    exact congrArg some
      (startJob_recast Junction.sends_right schedule cursor { t with world := w } job)

/-- What happens next can be chosen over the pairwise network too. -/
theorem tick_right (t : Machine (Junction places) α) : ∃ picks : List ℕ,
    (t.tick = none → picks = []) ∧ ∀ schedule cursor, Gives schedule cursor picks →
      (t.recast right schedule cursor).tick =
        t.tick.map (recast right schedule (cursor + picks.length)) := by
  cases ht : t.tick with
  | none =>
    refine ⟨[], fun _ => rfl, fun schedule cursor _ => tick_of_nothing ?_⟩
    exact (ready_plain schedule cursor).mpr (ready_of_tick_junction ht)
  | some t' =>
    have hne : t.world.ready ≠ [] := fun h => by
      rw [tick_of_nothing h] at ht
      cases ht
    obtain ⟨r, hr, htick⟩ := tick_of_ready hne
    obtain ⟨r', hr', hhappen⟩ :=
      happen_right (t := { t with cursor := t.cursor + 1 }) hr (htick.symm.trans ht)
    obtain ⟨k, hk⟩ := List.mem_iff_getElem?.mp (hr' [] 0)
    refine ⟨[k], nofun, fun schedule cursor hg => ?_⟩
    exact (tick_of_pick (m := t.recast right schedule cursor) hk (hg 0 k rfl)).trans
      (hhappen schedule (cursor + 1))

/-- A move can be made over the pairwise network too, if its action changes no number of places and
kills no other place. -/
theorem step_right (hc : ∀ a, t.action? = some a → Carried right t.world a) :
    ∃ picks : List ℕ, ∀ schedule cursor, Gives schedule cursor picks →
      (t.recast right schedule cursor).step = t.step.recast right schedule (cursor + picks.length) := by
  cases hw : t.waiting? with
  | none =>
    refine ⟨[], fun schedule cursor _ => ?_⟩
    refine step_recast Junction.sends_right schedule cursor t hc (fun _ => rfl) fun m₁ hm₁ => ?_
    rw [hw] at hm₁
    cases hm₁
  | some m₁ =>
    obtain ⟨picks, hnil, htick⟩ := tick_right m₁
    refine ⟨picks, fun schedule cursor hg => ?_⟩
    refine step_recast Junction.sends_right schedule cursor t hc (fun h => ?_) fun m₂ hm₂ => ?_
    · rw [hw] at h
      cases h
    · obtain rfl : m₁ = m₂ := Option.some.inj (hw.symm.trans hm₂)
      exact ⟨fun hnone => by rw [hnil hnone]; rfl, htick schedule cursor hg⟩

/-! ### Runs -/

/-- The texts stay within the places, or nothing is left to do and nothing can happen. -/
def Calm (t : Machine (Junction places) α) : Prop :=
  Tame places (t.recast Junction.plain [] 0) ∨ t.stack = [] ∧ t.world.ready = []

theorem kill_right (w : World (Junction places) (Code α)) {p : PlaceId} (hp : p.index < places) :
    (w.recast right).kill p = (w.kill p).map (World.recast right) := by
  rw [← w.net.accounts.known] at hp
  unfold World.kill
  rw [World.net_recast, Junction.kill_right hp]
  cases Network.kill w.net p <;> rfl

theorem carried_right {w : World (Junction places) (Code α)} :
    ∀ a : Action α, a.Within places → Carried right w a
  | .kill p, h => kill_right w h
  | .grow _, h => absurd h (by simp [Action.Within])
  | .attempt a, h => by
    rw [Carried]
    rw [Action.Within] at h
    exact carried_right a h
  | .log _, _ | .fail _, _ | .panic _, _ | .save _, _ | .info, _ | .pump _, _ | .spawn _, _
  | .spawnAt _ _, _ | .spawnShared _ _ _, _ | .spawnAmong _ _ _, _ | .spawnUnder _ _, _
  | .scope _ _, _ | .evaluate _ _ _, _ => trivial

namespace Calm

theorem carried (h : Calm t) {a : Action α} (ha : t.action? = some a) : Carried right t.world a := by
  unfold action? at ha
  split at ha
  · rename_i as owner previous rest hstack
    cases ha
    rcases h with h | ⟨hnil, -⟩
    · have hin := h.frames _ (show _ ∈ t.stack from hstack ▸ List.mem_cons_self ..)
      simp only [Frame.rest, Action.WithinAll] at hin
      exact carried_right a hin.1
    · rw [hnil] at hstack
      cases hstack
  · cases ha

theorem step (h : Calm t) (hm : t.step = .to t') : Calm t' := by
  obtain ⟨picks, hright⟩ := step_right fun _ ha => h.carried ha
  rcases h with h | ⟨hnil, -⟩
  · have hr := hright picks 0 (.self picks)
    have hplain := step_recast_cursorAfter Logged.carries_net (t.recast right picks 0)
    rw [hr, hm] at hplain
    have htame : Tame places (t.recast Junction.plain picks 0) := h.congr rfl rfl
    rcases htame.step hplain with h' | ⟨hs, hw, hnone⟩
    · exact .inl (h'.congr rfl rfl)
    · refine .inr ⟨hs, ?_⟩
      have hready := ready_of_tick (fun lane hl => Pairwise.take_waiting hl) hnone
      refine (ready_plain [] 0).mp ?_
      exact (congrArg World.ready hw).trans hready
  · unfold Machine.step at hm
    rw [hnil] at hm
    cases hm

/-- Where a run stops, nothing can happen. -/
theorem stops (h : Calm t) (hm : t.step = .finished ∨ t.step = .hung) : t.world.ready = [] := by
  unfold Machine.step at hm
  split at hm
  · rename_i hstack
    rcases h with h | ⟨-, hready⟩
    · have hb := h.bottom
      change t.stack.getLast? = _ at hb
      rw [hstack] at hb
      cases hb
    · exact hready
  · simp at hm
  · simp at hm
  · split_ifs at hm
    · simp at hm
    · split at hm
      · simp at hm
      · exact ready_of_tick_junction ‹_›
  · simp at hm
  · split at hm <;> simp at hm

theorem run (h : Calm t) (n : ℕ) :
    Calm (t.runFor n).1 ∧ ((t.runFor n).2 ≠ .unfinished → (t.runFor n).1.world.ready = []) := by
  induction n generalizing t with
  | zero => exact ⟨h, fun hne => absurd rfl hne⟩
  | succ n ih =>
    unfold runFor
    rcases hs : t.step with t' | _ | _
    · exact ih (h.step hs)
    · exact ⟨h, fun _ => h.stops (.inl hs)⟩
    · exact ⟨h, fun _ => h.stops (.inr hs)⟩

end Calm

/-- A run can be made over the pairwise network too, move by move. -/
theorem run_right (h : Calm t) (n : ℕ) : ∃ picks : List ℕ, ∀ schedule cursor,
    Gives schedule cursor picks → ∀ k ≤ n, ∃ cursor', (t.recast right schedule cursor).runFor k =
      ((t.runFor k).1.recast right schedule cursor', (t.runFor k).2) := by
  induction n generalizing t with
  | zero =>
    refine ⟨[], fun schedule cursor _ k hk => ⟨cursor, ?_⟩⟩
    rw [Nat.le_zero.mp hk]
    rfl
  | succ n ih =>
    obtain ⟨picks, hstep⟩ := step_right fun _ ha => h.carried ha
    rcases hs : t.step with t' | _ | _
    · obtain ⟨picks', hrun⟩ := ih (h.step hs)
      refine ⟨picks ++ picks', fun schedule cursor hg k hk => ?_⟩
      cases k with
      | zero => exact ⟨cursor, rfl⟩
      | succ k =>
        obtain ⟨cursor', hk'⟩ := hrun schedule _ hg.append.2 k (by omega)
        refine ⟨cursor', ?_⟩
        simp only [runFor, hstep schedule cursor hg.append.1, hs, Move.recast, hk']
    all_goals
      refine ⟨picks, fun schedule cursor hg k hk => ⟨cursor, ?_⟩⟩
      cases k with
      | zero => rfl
      | succ k => simp only [runFor, hstep schedule cursor hg, hs, Move.recast]

end Machine

/-! ### Programs -/

/-- What a network says to a packet that it does not accept. -/
def Network.refusal? {ν : Type → Type} [Network ν] {μ : Type} (n : ν μ) (pk : Packet μ) :
    Option PlaceError :=
  match Network.send n pk with
  | .ok _ => none
  | .error e => some e

/-- The packets that wait for a place. -/
def Mailroom.queue {μ : Type} (n : Mailroom μ) (p : PlaceId) : List (Packet μ) :=
  ((n.inboxes[p.index]?).map (·.queue)).getD []

/-- All of a machine but its network and its schedule. -/
def Machine.blind {ν : Type → Type} {α : Type} (m : Machine ν α) : Machine (fun _ => Unit) α :=
  m.recast (fun _ => ()) [] 0

/-- A program begins where some places have been killed. Below it is a request to let happen
whatever is left. -/
def Program.launch {ν : Type → Type} [Network ν] {α : Type} (p : Program α)
    (net : ν (Message (Code α))) (places : ℕ) (kind : ScopeKind) (spins : ℕ) (killed : List PlaceId)
    (schedule : List ℕ) : Machine ν α :=
  p.start ((Machine.idle ((World.start net places kind spins).killAll killed) schedule).push (.pump none))

/-- A machine over a mailroom and one over a pairwise network stand at the same point: they are the
same but for their networks, whose logs are the same and which accept the same packets, and those
that wait are those accepted and not delivered yet. -/
structure Machine.Abreast {α : Type} (places : ℕ) (l : Machine (Logged Mailroom) α)
    (r : Machine (Logged Pairwise) α) : Prop where
  state : l.blind = r.blind
  traffic : l.world.net.traffic = r.world.net.traffic
  refusals : ∀ pk, Network.refusal? l.world.net pk = Network.refusal? r.world.net pk
  /-- A place that there is not is refused as such, even if it was killed. -/
  unknown : ∀ pk, places ≤ pk.dest.index →
    Network.refusal? l.world.net pk = some (.unknown pk.dest places)
  dead : ∀ pk, pk.dest.index < places → .killed pk.dest ∈ l.world.net.traffic →
    Network.refusal? l.world.net pk = some (.dead pk.dest)
  accepted : ∀ pk, pk.dest.index < places → .killed pk.dest ∉ l.world.net.traffic →
    Network.refusal? l.world.net pk = none
  queued : ∀ p, Traffic.acceptedFor p l.world.net.traffic =
    Traffic.deliveredTo p l.world.net.traffic ++ l.world.net.net.queue p
  barred : Traffic.Barred l.world.net.traffic

section Programs

variable {places : ℕ} {α : Type} {ν ν' : Type → Type} [Network ν] [Network ν']

theorem Network.Sends.refusal? {μ : Type} {h : ν μ → ν' μ} (hs : Network.Sends h) (n : ν μ)
    (pk : Packet μ) : Network.refusal? (h n) pk = Network.refusal? n pk := by
  unfold Network.refusal?
  rw [hs.send]
  cases Network.send n pk <;> rfl

theorem Junction.refusal?_eq {μ : Type} (n : Junction places μ) (pk : Packet μ) :
    Network.refusal? n pk = if pk.dest.index < places then
      if pk.dest ∈ n.pairs.dead then some (.dead pk.dest) else none
      else some (.unknown pk.dest places) := by
  have hsend : Network.send n pk = n.send pk := rfl
  unfold Network.refusal?
  rw [hsend]
  unfold Junction.send
  have hknown := n.accounts.known
  by_cases hk : pk.dest.index < places
  · rw [dif_pos (by rwa [hknown]), if_pos hk]
    split_ifs <;> rfl
  · rw [dif_neg (by rwa [hknown]), if_neg hk, hknown]

theorem Junction.queue_mailroom {μ : Type} (n : Junction places μ) (p : PlaceId) :
    n.mailroom.queue p = n.pairs.packets.filter (·.dest = p) := by
  unfold Mailroom.queue
  rw [getElem?_mailroom]
  split_ifs with hp
  · exact n.queue_inbox p
  · refine (List.filter_eq_nil_iff.mpr fun pk hpk hd => hp ?_).symm
    rw [← of_decide_eq_true hd]
    exact n.accounts.housed pk hpk

theorem Machine.abreast (t : Machine (Junction places) α) (schedule : List ℕ) (cursor : ℕ) :
    Abreast places (t.onto left) (t.recast right schedule cursor) where
  state := rfl
  traffic := rfl
  refusals pk := (Junction.carries_left.refusal? _ pk).trans (Junction.sends_right.refusal? _ pk).symm
  unknown pk hk := by
    refine (Junction.carries_left.refusal? _ pk).trans ?_
    rw [Junction.refusal?_eq, if_neg (Nat.not_lt.mpr hk)]
  dead pk hk hd := by
    refine (Junction.carries_left.refusal? _ pk).trans ?_
    rw [Junction.refusal?_eq, if_pos hk, if_pos ((t.world.net.accounts.dead _).mpr hd)]
  accepted pk hk hd := by
    refine (Junction.carries_left.refusal? _ pk).trans ?_
    rw [Junction.refusal?_eq, if_pos hk, if_neg (mt (t.world.net.accounts.dead _).mp hd)]
  queued p := by
    have hq := t.world.net.accounts.queued p
    rwa [← Junction.queue_mailroom] at hq
  barred := t.world.net.accounts.barred

theorem World.killAll_recast {β : Type} {h : ν (Message β) → ν' (Message β)} {ps : List PlaceId}
    (hk : ∀ w : World ν β, ∀ p ∈ ps, (w.recast h).kill p = (w.kill p).map (World.recast h))
    (w : World ν β) : (w.recast h).killAll ps = (w.killAll ps).recast h := by
  induction ps generalizing w with
  | nil => rfl
  | cons p ps ih =>
    have hhead : ((w.recast h).kill p).toOption.getD (w.recast h) = ((w.kill p).toOption.getD w).recast h := by
      rw [hk w p (List.mem_cons_self ..)]
      cases w.kill p <;> rfl
    show killAll (((w.recast h).kill p).toOption.getD (w.recast h)) ps = _
    rw [hhead]
    exact ih (fun w q hq => hk w q (List.mem_cons_of_mem _ hq)) _

namespace Program

variable {h : ν (Message (Code α)) → ν' (Message (Code α))}

theorem launch_recast (hs : Network.Sends h) {killed : List PlaceId}
    (hk : ∀ w : World ν (Code α), ∀ q ∈ killed, (w.recast h).kill q = (w.kill q).map (World.recast h))
    (p : Program α) (net : ν (Message (Code α))) (places : ℕ) (kind : ScopeKind) (spins : ℕ)
    (schedule schedule' : List ℕ) :
    p.launch (h net) places kind spins killed schedule' =
      (p.launch net places kind spins killed schedule).recast h schedule' 0 := by
  have hw := World.killAll_recast hk (.start net places kind spins)
  unfold launch
  rw [← Machine.start_recast hs]
  exact congrArg (fun w => p.start ((Machine.idle w schedule').push (.pump none))) hw

theorem launch_onto (hs : Network.Carries h) (p : Program α) (net : ν (Message (Code α))) (places : ℕ)
    (kind : ScopeKind) (spins : ℕ) (killed : List PlaceId) (schedule : List ℕ) :
    p.launch (h net) places kind spins killed schedule =
      (p.launch net places kind spins killed schedule).onto h := by
  have hk : ∀ w : World ν (Code α), ∀ q ∈ killed, (w.recast h).kill q = (w.kill q).map (World.recast h) :=
    fun w q _ => Machine.carried hs w (.kill q)
  rw [launch_recast hs.toSends hk p net places kind spins schedule schedule]
  unfold launch start
  cases p.setting <;> rfl

variable {killed : List PlaceId} {p : Program α} (hp : Action.WithinAll places p.body) (hk : ∀ q ∈ killed, q.index < places)

include hk

theorem launch_right (kind : ScopeKind) (spins : ℕ) (schedule schedule' : List ℕ) :
    p.launch ⟨.empty places, []⟩ places kind spins killed schedule' =
      (p.launch (Junction.empty places) places kind spins killed schedule).recast right schedule' 0 :=
  launch_recast Junction.sends_right (fun w q hq => Machine.kill_right w (hk q hq)) p
    (Junction.empty places) places kind spins schedule schedule'

include hp

theorem launch_calm (kind : ScopeKind) (spins : ℕ) (schedule : List ℕ) :
    (p.launch (Junction.empty places) places kind spins killed schedule).Calm := by
  have hright := launch_right (p := p) hk kind spins schedule []
  have hplain := launch_onto Logged.carries_net p (⟨.empty places, []⟩ : Logged Pairwise _) places kind
    spins killed []
  rw [hright] at hplain
  have hstart : World.Tasks (fun code : Code α => Action.WithinAll places code.body)
      (.start (Pairwise.empty places) places kind spins) := ⟨nofun, nofun⟩
  have hbase : Machine.Tame places ((Machine.idle ((World.start (Pairwise.empty places) places kind
      spins).killAll killed) []).push (.pump none) : Machine Pairwise α) :=
    ⟨fun f hf => by rw [List.mem_singleton.mp hf]; trivial, hstart.killAll killed, rfl⟩
  refine .inl (Machine.Tame.congr (hbase.start hp) ?_ ?_)
  · exact congrArg Machine.world hplain.symm
  · exact congrArg Machine.stack hplain.symm

end Program

/-- Every run of a program over a mailroom is, move by move, a run over the pairwise network with
another schedule. -/
theorem mailroom_refines_pairwise (places : ℕ) (kind : ScopeKind) (spins : ℕ) (killed : List PlaceId)
    (hk : ∀ q ∈ killed, q.index < places) (p : Program α) (hp : Action.WithinAll places p.body)
    (schedule : List ℕ) (n : ℕ) :
    ∃ schedule' : List ℕ, ∀ k ≤ n,
      ∃ (l : Machine (Logged Mailroom) α) (r : Machine (Logged Pairwise) α) (halt : Machine.Halt),
        (p.launch ⟨.empty places, []⟩ places kind spins killed schedule).runFor k = (l, halt) ∧
        (p.launch ⟨.empty places, []⟩ places kind spins killed schedule').runFor k = (r, halt) ∧
        (p.launch (Mailroom.empty places) places kind spins killed schedule).runFor k =
          (l.onto Logged.net, halt) ∧
        (p.launch (Pairwise.empty places) places kind spins killed schedule').runFor k =
          (r.onto Logged.net, halt) ∧
        Machine.Abreast places l r ∧
        (halt ≠ .unfinished → ∀ q, Traffic.deliveredTo q l.world.net.traffic =
          Traffic.acceptedFor q l.world.net.traffic) := by
  have hcalm := Program.launch_calm hp hk kind spins schedule
  have hleft := Program.launch_onto Junction.carries_left p (Junction.empty places) places kind spins
    killed schedule
  rw [Junction.left_empty] at hleft
  have hright := Program.launch_right (p := p) hk kind spins schedule
  generalize p.launch (Junction.empty places) places kind spins killed schedule = t at *
  obtain ⟨picks, hrun⟩ := Machine.run_right hcalm n
  refine ⟨picks, fun k hkn => ?_⟩
  obtain ⟨cursor, hr⟩ := hrun picks 0 (.self picks) k hkn
  rw [← hright] at hr
  have hl := Machine.runFor_onto Junction.carries_left k t
  rw [← hleft] at hl
  refine ⟨_, _, _, hl, hr, ?_, ?_, Machine.abreast _ picks cursor, fun hhalt q => ?_⟩
  · have hnet := Program.launch_onto Logged.carries_net p (⟨.empty places, []⟩ : Logged Mailroom _)
      places kind spins killed schedule
    rw [hnet, Machine.runFor_onto Logged.carries_net, hl]
  · have hnet := Program.launch_onto Logged.carries_net p (⟨.empty places, []⟩ : Logged Pairwise _)
      places kind spins killed picks
    rw [hnet, Machine.runFor_onto Logged.carries_net, hr]
  · have hready := (hcalm.run k).2 hhalt
    have hnone := Junction.waiting_eq_nil.mp (Machine.ready_eq_nil.mp hready).1
    have hq := (t.runFor k).1.world.net.accounts.queued q
    rw [hnone, List.filter_nil, List.append_nil] at hq
    exact hq.symm

end Programs

/-- A place is killed after a task was sent to it, and refuses the next one. -/
def sendsThenKills : Program Unit :=
  ⟨.inScope ⟨0⟩ none, [.spawnAt ⟨1⟩ [], .attempt (.spawnAt ⟨2⟩ []), .kill ⟨1⟩,
    .attempt (.spawnAt ⟨1⟩ [])]⟩

/-- The task sent before the place was killed still arrives, and no other is accepted. -/
theorem mailroom_refines_pairwise_killed : ∃ (schedule' : List ℕ)
    (l : Machine (Logged Mailroom) Unit) (r : Machine (Logged Pairwise) Unit),
    (sendsThenKills.launch ⟨.empty 3, []⟩ 3 .plain 0 [⟨2⟩] [5]).runFor 40 = (l, .finished) ∧
    (sendsThenKills.launch ⟨.empty 3, []⟩ 3 .plain 0 [⟨2⟩] schedule').runFor 40 = (r, .finished) ∧
    Machine.Abreast 3 l r ∧
    Traffic.deliveredTo ⟨1⟩ l.world.net.traffic = Traffic.acceptedFor ⟨1⟩ l.world.net.traffic ∧
    (Traffic.acceptedFor ⟨1⟩ l.world.net.traffic).length = 1 ∧ l.log.length = 2 := by
  obtain ⟨schedule', hrun⟩ := mailroom_refines_pairwise 3 .plain 0 [⟨2⟩] (by decide) sendsThenKills
    (by simp [sendsThenKills, Action.WithinAll, Action.Within, PlaceId.index]) [5] 40
  obtain ⟨l, r, halt, hl, hr, -, -, hlr, hall⟩ := hrun 40 le_rfl
  have hend : ((sendsThenKills.launch (⟨.empty 3, []⟩ : Logged Mailroom _) 3 .plain 0 [⟨2⟩]
      [5]).runFor 40).2 = .finished := by decide +kernel
  have hsent : (Traffic.acceptedFor ⟨1⟩ ((sendsThenKills.launch (⟨.empty 3, []⟩ : Logged Mailroom _) 3
      .plain 0 [⟨2⟩] [5]).runFor 40).1.world.net.traffic).length = 1 := by decide +kernel
  have hlog : ((sendsThenKills.launch (⟨.empty 3, []⟩ : Logged Mailroom _) 3 .plain 0 [⟨2⟩]
      [5]).runFor 40).1.log.length = 2 := by decide +kernel
  rw [hl] at hend hsent hlog
  obtain rfl : halt = .finished := hend
  exact ⟨schedule', l, r, hl, hr, hlr, hall (by decide) ⟨1⟩, hsent, hlog⟩

end Quiescence
