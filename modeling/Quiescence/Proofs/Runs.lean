/-
# Runs, and what the root of a scope knows

In a run the tasks spawn tasks, report failures and end, and messages are
delivered, in any order and any number. A task may name any instances that hold
a task at that time: the one that spawns, or the body of a scope around it. One
that is to run where it is spawned names instances that live there. Nothing is
asked of the network but that lanes are first in, first out, and that what could
not be sent home would still be refused.

* `Step`, `Reachable`: the runs, each with its ledger.
* `Reachable.consistent`: the accounts of all scopes are right at all times.
* `released_settled`: a scope that its root takes for released has no task left
  anywhere, running, waiting or on its way.
* `conservation`: the tally of a place at the root, with what is reported and
  what is yet to be reported, is the number of tasks outstanding there.
* `released_of_settled`: so a scope without tasks and messages is released.
-/
import Mathlib.Logic.Relation
import Quiescence.Proofs.Ledger.Arrivals

namespace Quiescence

namespace World

variable {β : Type}

/-! ### Runs -/

/-- The ledger after a scope has been opened. -/
def afterOpen (w : World Pairwise β) (g : Ledger β) (p : PlaceId) : Ledger β :=
  { g with
    held := w.instances.length ::ₘ g.held
    spawned := (w.instances.length, p) ::ₘ g.spawned }

/-- One step of a run, with the entry that it makes in the ledger. -/
inductive Step : World Pairwise β → Ledger β → World Pairwise β → Ledger β → Prop where
  /-- A scope is opened; its body is its first task. -/
  | openScope (w g p kind) : w.Built p → Step w g (w.openScope p kind).2 (w.afterOpen g p)
  /-- A task is spawned for any place by one that runs at `p`. -/
  | spawn (w g task p target) :
      (∀ s ∈ task.finishes, s ∈ g.held ∧ (target = p → w.placeOf? s = some p)) →
      Step w g (w.spawnAt task p target).2 (w.afterSpawn g task p target)
  | fail (w g s f) : s ∈ g.held → Step w g (w.addSuppressed s f) (w.afterFailure g s f)
  | tell (w g s) : s ∈ g.held → Step w g (w.tell s) (w.afterTell g s)
  | deliver (w g lane w') : w.deliver lane = some w' → Step w g w' (w.afterDelivery g lane)
  /-- The owner of a scope that is released takes its failures and leaves. -/
  | leave (w g r i) : w.instance? r = some i → i.remoteId? = none → i.isReleasable = true →
      Step w g (w.leave r).2 { g with left := r :: g.left }
  | kill (w g p w') : w.kill p = .ok w' → Step w g w' g
  /-- The number of places changes; those that were out of reach stay so. -/
  | resize (w g known) : (∀ pk ∈ g.lost, (w.resize known).net.Refuses pk.dest) →
      Step w g (w.resize known) g
  /-- Workers and diagnostics do what they like. -/
  | elsewhere (w g w') : Alike w w' → Step w g w' g

/-- What runs lead to, from places where nothing goes on. -/
inductive Reachable : World Pairwise β → Ledger β → Prop where
  | start (net : Pairwise (Message β)) (places : ℕ) (kind : ScopeKind) (spins : ℕ) :
      net.packets = [] → places ≤ UInt32.size → Reachable (start net places kind spins) .empty
  | step {w g w' g'} : Reachable w g → Step w g w' g' → Reachable w' g'

variable {w w' : World Pairwise β} {g g' : Ledger β} {r : Serial} {i : Instance}

theorem consistent_start {net : Pairwise (Message β)} (hn : net.packets = []) {places : ℕ}
    (hp : places ≤ UInt32.size) (kind : ScopeKind) (spins : ℕ) :
    Consistent (start net places kind spins) Ledger.empty 0 [] := by
  have hnone : ∀ s, (start net places kind spins : World Pairwise β).instance? s = none := fun s => by
    simp [start, instance?]
  have hid : ∀ s, (start net places kind spins : World Pairwise β).idOf? s = none := fun s => by
    rw [idOf?, hnone]
    rfl
  refine
    { tidy := tidy_start net places kind spins hp
      named := ⟨fun s id hs => ?_, fun s t id hs => ?_, fun s id hs => ?_, fun s id hs => ?_, ?_⟩
      ended := by simp [Ledger.empty]
      begun := by simp [Ledger.empty]
      exact := fun s i hi => ?_
      idle := fun s i id hi => ?_
      sound := fun s i hi => ?_
      whereabouts := fun s i k hi => ?_
      closed := by simp [Ledger.empty]
      lost := by simp [Ledger.empty] }
  all_goals first
    | (rw [hid] at hs; cases hs)
    | (rw [hnone] at hi; cases hi)
    | simp [start, hn, Ledger.empty]

theorem Consistent.step (h : Consistent w g 0 []) (hs : Step w g w' g') : Consistent w' g' 0 [] := by
  cases hs with
  | openScope p kind hp => exact h.openScope hp kind
  | spawn task p target hs => exact h.spawnAt (fun s hx => (hs s hx).1) fun htp s hx => (hs s hx).2 htp
  | fail s f hs => exact h.fail hs f
  | tell s hs => exact h.tell hs
  | deliver lane _ hw => exact h.deliver hw
  | leave r i hi hr hz => exact h.leave hi hr hz
  | kill p _ hw =>
    cases hw
    exact h.renet rfl fun pk hpk => Pairwise.refuses_kill (h.lost pk hpk) p
  | resize known hl => exact h.renet rfl hl
  | elsewhere _ ha => exact h.alike ha

/-- Any number of steps. -/
abbrev Steps (w : World Pairwise β) (g : Ledger β) (w' : World Pairwise β) (g' : Ledger β) : Prop :=
  Relation.ReflTransGen (fun a b : World Pairwise β × Ledger β => Step a.1 a.2 b.1 b.2) (w, g) (w', g')

/-- At all times the accounts are right. -/
theorem Reachable.consistent (h : Reachable w g) : Consistent w g 0 [] := by
  induction h with
  | start net places kind spins hn hp => exact consistent_start hn hp kind spins
  | step _ hs ih => exact ih.step hs

theorem Reachable.steps (h : Reachable w g) (hs : Steps w g w' g') : Reachable w' g' := by
  suffices hx : ∀ b : World Pairwise β × Ledger β, Relation.ReflTransGen
      (fun a b : World Pairwise β × Ledger β => Step a.1 a.2 b.1 b.2) (w, g) b →
      Reachable b.1 b.2 from hx _ hs
  intro b hb
  induction hb with
  | refl => exact h
  | tail _ hstep ih => exact ih.step hstep

/-- A scope at place 0 spawns a task at place 1. It runs there and ends, the body ends, and the
report comes back. -/
def roundTrip : World Pairwise Unit × Ledger Unit :=
  let w₀ : World Pairwise Unit := start (Pairwise.empty 2) 2 .plain 0
  let w₁ := (w₀.openScope ⟨0⟩ .plain).2
  let g₁ := w₀.afterOpen .empty ⟨0⟩
  let w₂ := (w₁.spawnAt ⟨[0], ⟨0⟩, ()⟩ ⟨0⟩ ⟨1⟩).2
  let g₂ := w₁.afterSpawn g₁ ⟨[0], ⟨0⟩, ()⟩ ⟨0⟩ ⟨1⟩
  let w₃ := (w₂.deliver ⟨some ⟨0⟩, ⟨1⟩⟩).getD w₂
  let g₃ := w₂.afterDelivery g₂ ⟨some ⟨0⟩, ⟨1⟩⟩
  let w₄ := w₃.tell 1
  let g₄ := w₃.afterTell g₃ 1
  let w₅ := w₄.tell 0
  let g₅ := w₄.afterTell g₄ 0
  ((w₅.deliver ⟨some ⟨1⟩, ⟨0⟩⟩).getD w₅, w₅.afterDelivery g₅ ⟨some ⟨1⟩, ⟨0⟩⟩)

theorem reachable_roundTrip : Reachable roundTrip.1 roundTrip.2 := by
  have h0 : Reachable (start (Pairwise.empty 2) 2 .plain 0 : World Pairwise Unit) .empty :=
    .start _ 2 .plain 0 rfl (by decide)
  have h1 := h0.step (.openScope _ _ ⟨0⟩ .plain rfl)
  have h2 := h1.step (.spawn _ _ ⟨[0], ⟨0⟩, ()⟩ ⟨0⟩ ⟨1⟩ (by decide))
  have h3 := h2.step (.deliver _ _ ⟨some ⟨0⟩, ⟨1⟩⟩ _ rfl)
  have h4 := h3.step (.tell _ _ 1 (by decide))
  have h5 := h4.step (.tell _ _ 0 (by decide))
  exact h5.step (.deliver _ _ ⟨some ⟨1⟩, ⟨0⟩⟩ _ rfl)

/-! ### Release -/

theorem isReleasable_eq (hi : w.instance? r = some i) : w.isReleasable r = i.isReleasable := by
  simp [World.isReleasable, hi]

/-- Where a root is released, all its tallies are zero. -/
theorem Consistent.tally_of_released {limbo : Multiset (Serial × PlaceId)}
    {arrived : List (Packet (Message β))} (h : Consistent w g limbo arrived) (hi : w.instance? r = some i)
    (hr : i.remoteId? = none) (hz : w.isReleasable r = true) (k : ℕ) : i.counters.tally i.place k = 0 := by
  rw [isReleasable_eq hi] at hz
  exact (Counters.isReleased_iff (h.exact r i hi hr) i.place).mp hz k

/-- Where no episode goes on, none is on its way to be reported. -/
theorem reportsOf_of_episodes {id? : Option GlobalId} (he : ∀ p, w.episodes g p id? = []) :
    reportsOf id? (w.net.packets ++ g.lost) = [] := by
  refine List.eq_nil_iff_forall_not_mem.mpr fun e hm => ?_
  have hp := (List.append_eq_nil_iff.mp (he e.place)).1
  exact List.not_mem_nil (hp ▸ mem_episodesAt.mpr ⟨hm, rfl⟩)

/-- What the root of a scope takes for released is settled: at each place as many tasks of the
scope have ended as were spawned there, its body and the failures forwarded among them; none is held
at any place, and no message carries one or reports one. -/
theorem released_settled (h : Reachable w g) (hi : w.instance? r = some i) (hr : i.remoteId? = none)
    (hz : w.isReleasable r = true) :
    (∀ k, w.unitsAt r k g.spawned = w.tasksAt r k g.told ∧ w.tasksAt r k g.held = 0 ∧
      carriedAt i.id k (w.net.packets ++ g.astray) = 0) ∧
    reportsOf i.id (w.net.packets ++ g.lost) = [] := by
  have hc := h.consistent
  obtain ⟨he, ho⟩ := hc.settled hi hr (hc.tally_of_released hi hr hz)
  refine ⟨fun k => ?_, reportsOf_of_episodes he⟩
  obtain ⟨h1, h2, h3, -⟩ := ho k
  rw [List.append_nil] at h3
  exact ⟨h1, h2, h3⟩

/-- The root is released, and all tasks have ended. -/
theorem roundTrip_settled : ∃ i, roundTrip.1.instance? 0 = some i ∧ i.remoteId? = none ∧
    roundTrip.1.isReleasable 0 = true ∧
      ∀ k, roundTrip.1.unitsAt 0 k roundTrip.2.spawned = roundTrip.1.tasksAt 0 k roundTrip.2.told :=
  ⟨_, rfl, rfl, rfl, fun k => ((released_settled reachable_roundTrip rfl rfl rfl).1 k).1⟩

/-! ### Conservation -/

/-- What the instances of a scope away from home have not reported yet, of the place at position
`k`. -/
def unreportedOf (w : World Pairwise β) (id? : Option GlobalId) (k : ℕ) : ℤ :=
  (w.instances.map fun i =>
    if i.remoteId?.isSome ∧ i.remoteId? = id? then i.counters.unreported k else 0).sum

/-- The episodes of a scope that go on, at all places. -/
def ongoing (w : World Pairwise β) (id? : Option GlobalId) : List Episode :=
  w.instances.filterMap fun i =>
    if i.remoteId?.isSome ∧ i.remoteId? = id? ∧ i.counters.count ≠ 0 then
      some ⟨i.place, i.counters.unreported⟩
    else none

/-- Where only one position matters, filtering a list looks at that position. -/
theorem filterMap_at {γ δ : Type} {f : γ → Option δ} {l : List γ} {n : ℕ}
    (h : ∀ m x, l[m]? = some x → (f x).isSome → m = n) :
    l.filterMap f = (l[n]?.bind f).toList := by
  induction l generalizing n with
  | nil => simp
  | cons a l ih =>
    cases n with
    | zero =>
      have hl : l.filterMap f = [] := List.filterMap_eq_nil_iff.mpr fun x hx => by
        obtain ⟨m, hm⟩ := List.mem_iff_getElem?.mp hx
        by_contra hne
        have := h (m + 1) x (by simpa using hm) (Option.isSome_iff_ne_none.mpr hne)
        omega
      rw [List.filterMap_cons, hl]
      cases hf : f a <;> simp [hf]
    | succ n =>
      have ha : f a = none := by
        by_contra hne
        have := h 0 a rfl (Option.isSome_iff_ne_none.mpr hne)
        omega
      rw [List.filterMap_cons, ha, List.getElem?_cons_succ]
      exact ih fun m x hm hx => by
        have := h (m + 1) x (by simpa using hm) hx
        omega

/-- At each place the episode that goes on is that of the instance that is bound. -/
theorem episodesAt_ongoing (h : Tidy w g.held) (p : PlaceId) (id? : Option GlobalId) :
    episodesAt p (w.ongoing id?) = w.current p id? := by
  cases id? with
  | none =>
    rw [show w.ongoing none = [] from List.filterMap_eq_nil_iff.mpr fun i _ => if_neg ?_]
    · rfl
    · rintro ⟨h1, h2, -⟩
      rw [h2] at h1
      cases h1
  | some id =>
    have hlive : ∀ s i, w.instance? s = some i → i.place = p → i.remoteId? = some id →
        i.counters.count ≠ 0 → w.bound? p id = some (.scope s) := fun s i hi hp hr hc =>
      hp ▸ h.bound_of_held hi hr (h.held_of_count hi hr hc)
    have hfilter : episodesAt p (w.ongoing (some id)) = w.instances.filterMap fun i =>
        if i.place = p ∧ i.remoteId? = some id ∧ i.counters.count ≠ 0 then
          some ⟨p, i.counters.unreported⟩
        else none := by
      unfold episodesAt ongoing
      rw [List.filter_filterMap]
      congr 1
      funext i
      by_cases hr : i.remoteId? = some id <;> by_cases hp : i.place = p <;>
        by_cases hc : i.counters.count = 0 <;> simp [hr, hp, hc]
    rw [hfilter]
    cases hb : w.bound? p id with
    | none =>
      simp only [current, hb]
      refine List.filterMap_eq_nil_iff.mpr fun i hm => if_neg ?_
      rintro ⟨hp, hr, hc⟩
      obtain ⟨s, hs⟩ := List.mem_iff_getElem?.mp hm
      rw [hlive s i hs hp hr hc] at hb
      cases hb
    | some b =>
      obtain ⟨s, i, rfl, hi, hp, -⟩ := h.registered p id b hb
      rw [filterMap_at (n := s) fun t x hx hs => ?_]
      · have hi' : w.instances[s]? = some i := hi
        simp only [current, hb, hi, hi', Option.bind_some, hp, true_and]
        split_ifs <;> rfl
      · obtain ⟨hxp, hxr, hxc⟩ : x.place = p ∧ x.remoteId? = some id ∧ x.counters.count ≠ 0 := by
          by_contra hne
          rw [if_neg hne] at hs
          cases hs
        have := hlive t x hx hxp hxr hxc
        rw [hb] at this
        cases this
        rfl

/-- An instance without a task has nothing to report, so the episodes that go on are all there is to
report. -/
theorem totalDelta_ongoing (h : Consistent w g 0 []) (id? : Option GlobalId) (k : ℕ) :
    totalDelta (w.ongoing id?) k = w.unreportedOf id? k := by
  have hidle : ∀ i ∈ w.instances, i.remoteId?.isSome → i.counters.count = 0 →
      i.counters.unreported = 0 := fun i hm hr hc => by
    obtain ⟨s, hs⟩ := List.mem_iff_getElem?.mp hm
    obtain ⟨id, hid⟩ := Option.isSome_iff_exists.mp hr
    refine h.idle s i id hs hid fun hs' => ?_
    have := h.tidy.count s i id hs hid
    rw [hc] at this
    exact absurd (Multiset.count_eq_zero.mp (by omega)) (fun hn => hn hs')
  unfold ongoing unreportedOf
  generalize w.instances = l at hidle ⊢
  induction l with
  | nil => rfl
  | cons i l ih =>
    have ih := ih fun x hx => hidle x (List.mem_cons_of_mem _ hx)
    rw [List.filterMap_cons, List.map_cons, List.sum_cons, ← ih]
    by_cases hr : i.remoteId?.isSome ∧ i.remoteId? = id?
    · by_cases hc : i.counters.count = 0
      · simp [hr, hc, hidle i (List.mem_cons_self ..) hr.1 hc]
      · rw [if_pos ⟨hr.1, hr.2, hc⟩, if_pos hr]
        simp only [totalDelta_cons, Pi.add_apply]
    · have hr' : ¬ (i.remoteId?.isSome ∧ i.remoteId? = id? ∧ i.counters.count ≠ 0) :=
        fun hx => hr ⟨hx.1, hx.2.1⟩
      rw [if_neg hr, if_neg hr', zero_add]

/-- Episodes are the same up to order if they are at each place. -/
theorem perm_of_episodesAt {es fs : List Episode} (h : ∀ p, episodesAt p es = episodesAt p fs) :
    es.Perm fs := by
  classical
  refine List.perm_iff_count.mpr fun e => ?_
  have hcount : ∀ l : List Episode, (episodesAt e.place l).count e = l.count e := fun l =>
    List.count_filter (by simp)
  rw [← hcount es, ← hcount fs, h]

/-- Where no task of a scope is outstanding, none of its instances has anything to report. -/
theorem unreportedOf_settled (h : Consistent w g 0 []) (hi : w.instance? r = some i)
    (hs : ∀ k, w.tasksAt r k g.held = 0) (k : ℕ) : w.unreportedOf i.id k = 0 := by
  refine List.sum_eq_zero fun x hx => ?_
  obtain ⟨j, hj, rfl⟩ := List.mem_map.mp hx
  split_ifs with hr
  · obtain ⟨id, hid⟩ := Option.isSome_iff_exists.mp hr.1
    obtain ⟨s, hsj⟩ := List.mem_iff_getElem?.mp hj
    have hjs : w.instance? s = some j := hsj
    have hsid : w.idOf? s = some id := by
      rw [idOf?_eq hjs, (Instance.remoteId?_eq_some.mp hid).1]
    rw [h.idle s j id hjs hid fun hm => ?_]
    · rfl
    · refine absurd (hs j.place.index) (Multiset.countP_pos.mpr ⟨s, hm, ?_, ?_⟩).ne'
      · rw [akin_iff hsid, idOf?_eq hi, ← hr.2, hid]
      · exact (sitsAt_of (placeOf?_eq hjs) _).mpr rfl
  · rfl

/-- At each place the tally that the root holds, with the reports on their way and what the other
instances of the scope have not reported, is the number of tasks spawned there that have not ended;
and those are held there or on their way. So it is while the home place can be reached, and a scope
of which no task is outstanding and no message on its way is released. -/
theorem conservation (h : Reachable w g) (hi : w.instance? r = some i) (hr : i.remoteId? = none)
    (hn : ¬ w.net.Refuses i.place) :
    (∀ k, i.counters.tally i.place k + totalDelta (reportsOf i.id w.net.packets) k +
        w.unreportedOf i.id k = w.outstanding g r k ∧
      w.outstanding g r k =
        (w.tasksAt r k g.held + carriedAt i.id k (w.net.packets ++ g.astray) : ℕ)) ∧
    ((∀ k, w.outstanding g r k = 0) → reportsOf i.id w.net.packets = [] →
      w.isReleasable r = true) := by
  have hc := h.consistent
  obtain ⟨es, ht⟩ := hc.sound r i hi hr
  have hlost : reportsOf i.id g.lost = [] := by
    cases hid : i.id with
    | none => exact reportsOf_none _
    | some id => exact hc.reportsOf_lost (Instance.remoteId?_eq_none.mp hr id hid ▸ hn)
  have hperm : es.Perm (reportsOf i.id w.net.packets ++ w.ongoing i.id) := by
    refine perm_of_episodesAt fun p => ?_
    rw [ht.order p, episodesAt_append, episodesAt_ongoing hc.tidy]
    show w.episodes g p i.id = _
    unfold episodes
    rw [reportsOf_append, hlost, List.append_nil]
  have htotal : totalDelta es =
      totalDelta (reportsOf i.id w.net.packets) + totalDelta (w.ongoing i.id) := by
    rw [← totalDelta_append]
    exact (hperm.map (·.delta)).sum_eq
  have hlaw : ∀ k, i.counters.tally i.place k + totalDelta (reportsOf i.id w.net.packets) k +
      w.unreportedOf i.id k = w.outstanding g r k := fun k => by
    have := congrFun ht.balance k
    rw [htotal, ← add_assoc] at this
    rw [← totalDelta_ongoing hc]
    exact this
  have hwhere : ∀ k, w.outstanding g r k =
      (w.tasksAt r k g.held + carriedAt i.id k (w.net.packets ++ g.astray) : ℕ) := fun k => by
    have := hc.whereabouts r i k hi hr
    unfold outstanding
    simp only [List.append_nil, unitsAt_zero, add_zero] at this
    omega
  refine ⟨fun k => ⟨hlaw k, hwhere k⟩, fun hout hrep => ?_⟩
  rw [isReleasable_eq hi]
  refine (Counters.isReleased_iff (hc.exact r i hi hr) i.place).mpr fun k => ?_
  have hs : ∀ k, w.tasksAt r k g.held = 0 := fun k => by
    have := hwhere k
    rw [hout] at this
    omega
  have := hlaw k
  rwa [hrep, unreportedOf_settled hc hi hs, hout, totalDelta_nil, Pi.zero_apply, add_zero,
    add_zero] at this

/-- All tasks have ended, and the root is released. -/
theorem roundTrip_released : ∃ i, roundTrip.1.instance? 0 = some i ∧ i.remoteId? = none ∧
    ¬ roundTrip.1.net.Refuses i.place ∧ (∀ k, roundTrip.1.outstanding roundTrip.2 0 k = 0) ∧
      roundTrip.1.isReleasable 0 = true := by
  obtain ⟨i, hi, hr, hn⟩ : ∃ i, roundTrip.1.instance? 0 = some i ∧ i.remoteId? = none ∧
      ¬ roundTrip.1.net.Refuses i.place := ⟨_, rfl, rfl, by decide⟩
  obtain ⟨hlaw, hrel⟩ := conservation reachable_roundTrip hi hr hn
  have hheld : roundTrip.2.held = 0 := by decide
  have hpks : roundTrip.1.net.packets = [] := rfl
  have hastray : roundTrip.2.astray = [] := rfl
  have hout : ∀ k, roundTrip.1.outstanding roundTrip.2 0 k = 0 := fun k => by
    have := (hlaw k).2
    rwa [hheld, hpks, hastray] at this
  refine ⟨i, hi, hr, hn, hout, hrel hout ?_⟩
  rw [hpks]
  rfl

end World

end Quiescence
