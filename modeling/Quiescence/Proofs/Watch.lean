/-
# Diagnostics of a run

A `Watch` is a run of bodies in which diagnostics are dumped now and then, with
all that was dumped. What is recorded at a place is what was dumped there, and
what the diagnostics still retain. Under any rule for tasks this was reported to
an instance that is there, and at home it is what the root has.

* `Filed`: what is recorded and what is kept agree with the ledger, and the kinds
  of instances with each other.
* `recorded_exactly`: what is recorded for a scope, at home and elsewhere, in
  terms of the bodies it governed. How much is said depends on the rule.
* `recorded_astray`: under the other rules less is true.
-/
import Quiescence.Proofs.Watch.Tracked

namespace Quiescence

/-- A run whose diagnostics are dumped now and then. -/
structure Watch (β : Type) where
  pool : Pool β
  /-- The entries that were dumped, oldest first, each with its place. -/
  dumped : List (PlaceId × Diagnostics.Entry)
  /-- The failures that owners of scopes were handed when they left, each with its root. -/
  handed : List (Serial × Failure)

namespace Watch

variable {β : Type}

def start (places : ℕ) (kind : ScopeKind) (spins : ℕ) : Watch β := ⟨.start places kind spins, [], []⟩

inductive Step (rule : Rule) : Watch β → Watch β → Prop where
  | act (m pool) : Pool.Act rule m.pool pool → Step rule m { m with pool }
  | leave (m r i) : m.pool.world.instance? r = some i → i.remoteId? = none → i.isReleasable = true →
      Step rule m { m with
        pool := { m.pool with world := (m.pool.world.leave r).2, left := r :: m.pool.left }
        handed := m.handed ++ i.exceptions.map fun f => (r, f) }
  | dump (m p) : Step rule m { m with
      pool := { m.pool with world := (m.pool.world.dump p).2 }
      dumped := m.dumped ++ (m.pool.world.dump p).1.map fun e => (p, e) }

inductive Reachable (rule : Rule) : Watch β → Prop where
  | start (places kind spins) : places ≤ UInt32.size → Reachable rule (start places kind spins)
  | step {m m'} : Reachable rule m → Step rule m m' → Reachable rule m'

variable {rule : Rule} {m m' : Watch β} {g : Ledger β} {kept : List (Serial × Failure)} {r s : Serial}
  {i : Instance} {p : PlaceId}

/-- The failures recorded for a scope at a place: those that were dumped, then those that are retained,
each with the instance it was recorded for. -/
def recordedFor (m : Watch β) (r : Serial) (p : PlaceId) : List (Serial × Failure) :=
  (m.pool.world.recorded m.dumped p).filter fun e => m.pool.world.Akin r e.1

/-- The failures that an instance has recorded as exceptions: those its owner was handed, and those it
still has. -/
def exceptions (m : Watch β) (s : Serial) : List Failure :=
  (m.handed.filter (·.1 = s)).map (·.2) ++ ((m.pool.world.instance? s).map (·.exceptions)).getD []

/-! ### The invariant -/

structure Filed (rule : Rule) (m : Watch β) (g : Ledger β) (kept : List (Serial × Failure)) : Prop where
  tracked : Pool.Tracked rule m.pool g
  recorded : m.pool.world.Recorded m.dumped g
  collected : m.pool.world.Collected m.handed g kept

theorem filed_start {places : ℕ} (hp : places ≤ UInt32.size) (kind : ScopeKind) (spins : ℕ) :
    Filed rule (start places kind spins : Watch β) .empty [] := by
  have hnone : ∀ s, (start places kind spins : Watch β).pool.world.instance? s = none := fun s => by
    simp [start, Pool.start, World.start, World.instance?]
  have hret : ∀ p, (start places kind spins : Watch β).pool.world.retained p = [] := fun p => by
    unfold World.retained World.site?
    simp only [start, Pool.start, World.start, List.getElem?_map]
    cases (List.range places)[p.index]? <;> rfl
  refine ⟨Pool.tracked_start hp kind spins, ⟨fun p => ?_, fun p s => ?_⟩,
    fun s i hi => ?_, fun r hr => ?_, fun id p _ => rfl, List.forall_mem_nil _, List.forall_mem_nil _⟩
  · rw [hret]
    exact List.nodup_nil
  · rw [World.recorded, hret]
    exact (ite_self _).symm
  · rw [hnone] at hi
    cases hi
  · obtain ⟨i, hi, -⟩ := hr
    rw [hnone] at hi
    cases hi

/-- A step that leaves no scope changes what was kept by what one instance keeps. -/
theorem Filed.act (h : Filed rule m g kept) {pool : Pool β} (hs : Pool.Act rule m.pool pool) :
    ∃ g' kept', Filed rule { m with pool } g' kept' := by
  have hm := h.tracked.addressees
  obtain ⟨g', ht, he⟩ := hs.tracked h.tracked
  cases he with
  | quiet hq =>
    have hr := h.recorded.quiet hm hq.retained hq.reported fun s i hi => by
      obtain ⟨j, hj, hp, -⟩ := hq.grows.old s i hi
      have hk := hq.kinds s i.kind (World.kindOf?_eq hi)
      rw [World.kindOf?_eq hj] at hk
      exact ⟨j, hj, hp, Option.some.inj hk⟩
    exact ⟨g', kept, ht, hr, h.collected.grow hm hq.grows hq.reported hq.lost⟩
  | noted s i j f more p hn hrep hroot hlost =>
    exact ⟨g', _, ht, h.recorded.notes hn hrep, h.collected.notes hn hrep hroot hlost⟩

theorem Filed.leave (h : Filed rule m g kept) (hi : m.pool.world.instance? r = some i)
    (hr : i.remoteId? = none) (hz : i.isReleasable = true) : Filed rule { m with
      pool := { m.pool with world := (m.pool.world.leave r).2, left := r :: m.pool.left }
      handed := m.handed ++ i.exceptions.map fun f => (r, f) } { g with left := r :: g.left } kept := by
  obtain ⟨-, -, hinst, -⟩ := World.leave_spec hi
  have hinst : ∀ t, (m.pool.world.leave r).2.instance? t =
      if t = r then some { i with exceptions := [] } else m.pool.world.instance? t := hinst
  have hret : (m.pool.world.leave r).2.retained = m.pool.world.retained := World.retained_leave _ r
  have hkinds : (m.pool.world.leave r).2.kindOf? = m.pool.world.kindOf? := by
    funext t
    unfold World.kindOf?
    rw [hinst]
    split_ifs with htr
    · rw [htr, hi]
      rfl
    · rfl
  refine ⟨h.tracked.frame (.leave r) (World.namesakes_of_set hi hinst rfl rfl) hkinds
    (World.still_leave m.pool.world r) rfl rfl rfl fun hrule => (h.tracked.kept hrule).leave hi hr hz,
    ?_, h.collected.leave hi hr rfl rfl⟩
  refine h.recorded.quiet h.tracked.addressees hret rfl fun t x hx => ?_
  by_cases htr : t = r
  · subst htr
    obtain rfl := Option.some.inj (hi.symm.trans hx)
    exact ⟨_, (hinst t).trans (if_pos rfl), rfl, rfl⟩
  · exact ⟨x, (hinst t).trans (by rw [if_neg htr, hx]), rfl, rfl⟩

theorem Filed.dump (h : Filed rule m g kept) (p : PlaceId) : Filed rule { m with
    pool := { m.pool with world := (m.pool.world.dump p).2 }
    dumped := m.dumped ++ (m.pool.world.dump p).1.map fun e => (p, e) } g kept := by
  have ha := World.alike_dump m.pool.world p
  have hs := World.still_dump m.pool.world p
  have hkinds : (m.pool.world.dump p).2.kindOf? = m.pool.world.kindOf? := by
    funext t
    rw [World.kindOf?, ha.instance?]
    rfl
  refine ⟨h.tracked.frame (.elsewhere _ ha) (World.steady_of_alike ha).toNamesakes hkinds
    hs rfl rfl rfl fun hrule => (h.tracked.kept hrule).elsewhere ha hs, h.recorded.dump p, ?_⟩
  exact h.collected.grow h.tracked.addressees (.of_instances ha.instance?) rfl fun _ _ => rfl

theorem Reachable.filed (h : Reachable rule m) : ∃ g kept, Filed rule m g kept := by
  induction h with
  | start places kind spins hp => exact ⟨_, _, filed_start hp kind spins⟩
  | step _ hs ih =>
    obtain ⟨g, kept, hf⟩ := ih
    cases hs with
    | act pool ha => exact hf.act ha
    | leave r i hi hr hz => exact ⟨_, _, hf.leave hi hr hz⟩
    | dump p => exact ⟨_, _, hf.dump p⟩

/-! ### What is recorded for a scope -/

theorem exceptions_eq (hi : m.pool.world.instance? s = some i) :
    m.exceptions s = (m.handed.filter (·.1 = s)).map (·.2) ++ i.exceptions := by
  simp [exceptions, hi]

/-- Where the failures of each instance agree, all agree up to order. -/
theorem perm_of_filters {l l' : List (Serial × Failure)}
    (h : ∀ s, l.filter (·.1 = s) = l'.filter (·.1 = s)) : l.Perm l' := by
  rw [List.perm_iff_count]
  intro e
  have hcount : ∀ l : List (Serial × Failure), l.count e = (l.filter (·.1 = e.1)).count e :=
    fun l => (List.count_filter (by simp)).symm
  rw [hcount l, hcount l', h]

/-- What is recorded was recorded for an instance that is there and retains. -/
theorem Filed.retains_of_mem (h : Filed rule m g kept) {e : Serial × Failure}
    (he : e ∈ m.pool.world.recorded m.dumped p) : m.pool.world.retains p e.1 := by
  have hx := h.recorded.exact p e.1
  by_contra hn
  rw [if_neg hn] at hx
  exact absurd he (fun hm => List.filter_eq_nil_iff.mp hx e hm (by simp))

theorem Filed.kind_eq (h : Filed rule m g kept) (hi : m.pool.world.instance? r = some i)
    (ha : m.pool.world.Akin r s) : m.pool.world.kindOf? s = some i.kind := by
  have hr := World.kindOf?_eq hi
  rw [h.tracked.uniform.akin h.tracked.orderly ha (by rw [hr]; rfl), hr]

/-- For a scope of the plain kind nothing is recorded. -/
theorem Filed.recorded_plain (h : Filed rule m g kept) (hi : m.pool.world.instance? r = some i)
    (hk : i.kind = .plain) (p : PlaceId) : m.recordedFor r p = [] := by
  refine List.filter_eq_nil_iff.mpr fun e he ha => ?_
  obtain ⟨j, hj, -, hret⟩ := World.retains_iff.mp (h.retains_of_mem he)
  have hkind := h.kind_eq hi (of_decide_eq_true ha)
  rw [World.kindOf?_eq hj, hk] at hkind
  rw [Option.some.inj hkind] at hret
  cases hret

/-- What is recorded for an instance of a debug scope is what was reported to it. -/
theorem Filed.recorded_debug (h : Filed rule m g kept) (hi : m.pool.world.instance? r = some i)
    (hk : i.kind = .debug) (p : PlaceId) (s : Serial) : (m.recordedFor r p).filter (·.1 = s) =
      if m.pool.world.Akin r s ∧ m.pool.world.placeOf? s = some p then g.reportsTo s else [] := by
  have hx := h.recorded.exact p s
  unfold recordedFor
  rw [List.filter_filter]
  by_cases ha : m.pool.world.Akin r s
  · have hret : m.pool.world.retains p s = true ↔ m.pool.world.placeOf? s = some p := by
      obtain ⟨j, hj, hjk⟩ := Option.map_eq_some_iff.mp (h.kind_eq hi ha)
      rw [World.retains_eq hj, hjk, hk, World.placeOf?_eq hj]
      simp [ScopeKind.retains]
    rw [List.filter_congr (q := fun e => decide (e.1 = s)) fun e _ => ?_, hx]
    · simp only [hret, ha, true_and]
    · rw [← Bool.decide_and, decide_eq_decide]
      exact ⟨fun hc => hc.1, fun hc => ⟨hc, hc ▸ ha⟩⟩
  · rw [if_neg fun hc => ha hc.1]
    refine List.filter_eq_nil_iff.mpr fun e _ => ?_
    simp only [Bool.and_eq_true, decide_eq_true_eq]
    rintro ⟨rfl, hc⟩
    exact ha hc

/-- Away from home it is what the bodies reported that the instances there governed. -/
theorem Filed.recorded_elsewhere (h : Filed rule m g kept) (hi : m.pool.world.instance? r = some i)
    (hr : i.remoteId? = none) (hk : i.kind = .debug) (hp : p ≠ i.place) (s : Serial) :
    (m.recordedFor r p).filter (·.1 = s) =
      if m.pool.world.Akin r s ∧ m.pool.world.placeOf? s = some p then m.pool.reportsTo s else [] := by
  rw [h.recorded_debug hi hk]
  split_ifs with hs
  · obtain ⟨ha, hsp⟩ := hs
    refine h.tracked.heard s ?_
    rintro ⟨j, hj, hjr⟩
    have hne : s ≠ r := fun hx => hp (by
      rw [hx, World.placeOf?_eq hi] at hsp
      exact (Option.some.inj hsp).symm)
    obtain ⟨id, -, hid⟩ := h.tracked.orderly.away_of_akin hi hr hj hne ha
    rw [hjr] at hid
    cases hid
  · rfl

/-- These are the bodies that the scope governed there, where bodies run at the place of the instance
that governs them. -/
theorem Filed.recorded_away (h : Filed rule m g kept) (hrule : rule ≠ .any)
    (hi : m.pool.world.instance? r = some i) (hr : i.remoteId? = none) (hk : i.kind = .debug)
    (hp : p ≠ i.place) (s : Serial) :
    (m.recordedFor r p).filter (·.1 = s) = (m.pool.reportedAt r p).filter (·.1 = s) := by
  have hplace : ∀ b ∈ m.pool.ended, b.finishes.head? = some s →
      m.pool.world.placeOf? s = some b.place := fun b hb =>
    (h.tracked.manned _ (.inr (.inr ⟨b, hb, rfl⟩))).governed hrule s
  rw [h.recorded_elsewhere hi hr hk hp, Pool.filter_reportedAt]
  by_cases hs : m.pool.world.Akin r s ∧ m.pool.world.placeOf? s = some p
  · rw [if_pos hs]
    refine congrArg Pool.reports (List.filter_congr fun b hb => decide_eq_decide.mpr ?_)
    refine ⟨fun hbs => ⟨hbs, hs.1, ?_⟩, fun hbs => hbs.1⟩
    exact Option.some.inj ((hplace b hb hbs).symm.trans hs.2)
  · rw [if_neg hs, List.filter_eq_nil_iff.mpr fun b hb => ?_]
    · rfl
    · simp only [decide_eq_true_eq]
      rintro ⟨hbs, ha, hbp⟩
      exact hs ⟨ha, hbp ▸ hplace b hb hbs⟩

/-- At home it is what the root has recorded as exceptions. -/
theorem Filed.recorded_home (h : Filed rule m g kept) (hi : m.pool.world.instance? r = some i)
    (hr : i.remoteId? = none) (hk : i.kind = .debug) :
    (m.recordedFor r i.place).map (·.2) = m.exceptions r := by
  have hroot : ∀ s, m.pool.world.Akin r s ∧ m.pool.world.placeOf? s = some i.place ↔ s = r :=
    fun s => h.tracked.orderly.eq_root hi hr
  have hself : m.recordedFor r i.place = (m.recordedFor r i.place).filter (·.1 = r) := by
    refine (List.filter_eq_self.mpr fun e he => ?_).symm
    obtain ⟨he, ha⟩ := List.mem_filter.mp he
    obtain ⟨j, hj, hp, -⟩ := World.retains_iff.mp (h.retains_of_mem he)
    simpa using (hroot e.1).mp ⟨of_decide_eq_true ha, hp ▸ World.placeOf?_eq hj⟩
  rw [hself, h.recorded_debug hi hk, if_pos ((hroot r).mpr rfl), exceptions_eq hi,
    h.collected.held r i hi, h.collected.root r ⟨i, hi, hr⟩]

/-- What an instance away from home has kept could not be sent home. -/
theorem Filed.passed (h : Filed .registered m g kept) (hi : m.pool.world.instance? r = some i)
    (hr : i.remoteId? = none)
    (hsent : ∀ pk ∈ m.pool.world.net.packets, ∀ id payload, i.id = some id →
      pk.content ≠ .failure id payload) (p : PlaceId) :
    ((g.reported.filter fun e => e.scope = r ∧ e.place = p).map (·.failure)) ++
        ((kept.filter fun e => m.pool.world.Akin r e.1 ∧ e.1 ≠ r).filter fun e =>
          m.pool.world.placeOf? e.1 = some p).map (fun e => e.2.relayed i.place) =
      ((m.pool.governed r).filter (·.place = p)).filterMap (Ended.received? i.place) := by
  have hb := h.tracked.kept rfl
  have hc := hb.run.consistent
  have hf := hb.run.faithful
  have hroot : ∀ s, m.pool.world.Akin r s ∧ m.pool.world.placeOf? s = some i.place ↔ s = r :=
    fun s => hc.orderly.eq_root hi hr
  rw [← hb.reports_governed r i.place p, List.filter_filter]
  by_cases hp : p = i.place
  · -- no other instance is at home
    have hnone : (kept.filter fun e => decide (m.pool.world.placeOf? e.1 = some p) &&
        decide (m.pool.world.Akin r e.1 ∧ e.1 ≠ r)) = [] := by
      refine List.filter_eq_nil_iff.mpr fun e _ => ?_
      simp only [Bool.and_eq_true, decide_eq_true_eq]
      rintro ⟨hpl, ha, hne⟩
      exact hne ((hroot e.1).mp ⟨ha, hp ▸ hpl⟩)
    rw [hnone, List.map_nil, List.append_nil, hp]
    simp only [if_pos, ← World.reports_home hc hi hr]
  · simp only [if_neg hp]
    cases hid : i.id with
    | none =>
      obtain ⟨h1, h2⟩ := World.reports_confined hf hi hid hp
      rw [h1, h2, List.filter_eq_nil_iff.mpr fun e _ => ?_]
      · rfl
      · simp only [Bool.and_eq_true, decide_eq_true_eq]
        rintro ⟨-, ha | ⟨hsome, he⟩, hne⟩
        · exact hne ha
        · rw [he, World.idOf?_eq hi, hid] at hsome
          cases hsome
    | some id =>
      have hhome : id.home = i.place := Instance.remoteId?_eq_none.mp hr id hid
      have hnone : World.failuresFrom id p m.pool.world.net.packets = [] := by
        refine List.filterMap_eq_nil_iff.mpr fun pk hpk => ?_
        unfold World.failureFrom?
        split
        · rename_i id' payload hm
          refine if_neg fun hx => hsent pk hpk id payload hid ?_
          rw [hm, hx.1]
        · rfl
      rw [← hhome] at hp ⊢
      rw [← World.reports_passed hc hf hi hid hr hp, World.failuresFrom_append, hnone, List.nil_append,
        h.collected.lost id p hp]
      congr 2
      refine List.filter_congr fun e _ => ?_
      simp only [← Bool.decide_and, decide_eq_decide, World.akin_root hi hid]
      constructor
      · rintro ⟨hpl, hx, -⟩
        exact ⟨hx, hpl⟩
      · rintro ⟨hx, hpl⟩
        refine ⟨hpl, hx, ?_⟩
        rintro rfl
        rw [World.placeOf?_eq hi, ← hhome] at hpl
        exact hp (Option.some.inj hpl).symm

/-- All instances of a scope have its kind. For a plain scope nothing is recorded anywhere. For a debug
scope what is recorded, dumped or still retained, is

* at home what the root has recorded as exceptions, in the same order;
* at another place what the bodies reported that the instances there governed, each failure once and in
  order for each instance, whether or not it could be sent home. Where bodies run at the place of the
  instance that governs them, these are the bodies that the scope governed there.

Where in addition all instances of a task hold one, and every failure that was sent has been delivered,
the exceptions are, for each place, the failures of the bodies there as they arrived, in order, but for
those that could not be sent, which their instances have kept. -/
theorem recorded_exactly (h : Reachable rule m) (hi : m.pool.world.instance? r = some i)
    (hr : i.remoteId? = none) :
    (∀ s, m.pool.world.Akin r s → m.pool.world.kindOf? s = some i.kind) ∧
    (i.kind = .plain → ∀ p, m.recordedFor r p = []) ∧
    (i.kind = .debug →
      (m.recordedFor r i.place).map (·.2) = m.exceptions r ∧
      ∀ p, p ≠ i.place →
        (∀ s, (m.recordedFor r p).filter (·.1 = s) =
          if m.pool.world.Akin r s ∧ m.pool.world.placeOf? s = some p then m.pool.reportsTo s else []) ∧
        (rule ≠ .any → (m.recordedFor r p).Perm (m.pool.reportedAt r p) ∧
          ∀ s, (m.recordedFor r p).filter (·.1 = s) = (m.pool.reportedAt r p).filter (·.1 = s))) ∧
    (rule = .registered →
      (∀ pk ∈ m.pool.world.net.packets, ∀ id payload, i.id = some id →
        pk.content ≠ .failure id payload) →
      ∃ (entries : List (PlaceId × Failure)) (refused : List (Serial × Failure)),
        m.exceptions r = entries.map (·.2) ∧
        (∀ e ∈ refused, m.pool.world.Akin r e.1 ∧ e.1 ≠ r) ∧
        (∀ s, m.pool.world.Akin r s → s ≠ r →
          m.exceptions s = (refused.filter (·.1 = s)).map (·.2)) ∧
        ∀ p, (entries.filter (·.1 = p)).map (·.2) ++
            (refused.filter fun e => m.pool.world.placeOf? e.1 = some p).map (fun e =>
              if e.2.fits then e.2.normalize else e.2.relayed i.place) =
          ((m.pool.governed r).filter (·.place = p)).filterMap (Ended.received? i.place)) := by
  obtain ⟨g, kept, hf⟩ := h.filed
  refine ⟨fun s => hf.kind_eq hi, hf.recorded_plain hi, fun hk => ⟨hf.recorded_home hi hr hk,
    fun p hp => ⟨hf.recorded_elsewhere hi hr hk hp, fun hrule => ?_⟩⟩, fun hrule hsent => ?_⟩
  · have haway := hf.recorded_away hrule hi hr hk hp
    exact ⟨perm_of_filters haway, haway⟩
  · subst hrule
    refine ⟨(g.reported.filter (·.scope = r)).map fun e => (e.place, e.failure),
      kept.filter fun e => m.pool.world.Akin r e.1 ∧ e.1 ≠ r, ?_, fun e he => ?_, fun s ha hne => ?_,
      fun p => ?_⟩
    · rw [exceptions_eq hi, hf.collected.held r i hi, hf.collected.root r ⟨i, hi, hr⟩, Ledger.reportsTo]
      simp only [List.map_map]
      rfl
    · simpa using (List.mem_filter.mp he).2
    · obtain ⟨j, hj, -⟩ := Option.map_eq_some_iff.mp (hf.kind_eq hi ha)
      rw [exceptions_eq hj, hf.collected.held s j hj, List.filter_filter]
      refine congrArg _ (List.filter_congr fun e _ => ?_)
      rw [← Bool.decide_and, decide_eq_decide]
      exact ⟨fun he => ⟨he, he ▸ ha, he ▸ hne⟩, fun he => he.1⟩
    · rw [← hf.passed hi hr hsent p]
      congr 1
      · simp [List.filter_map, List.filter_filter, Function.comp_def, Bool.and_comm]
      · exact List.map_congr_left fun e _ => (Ended.relayed_eq i.place e.2).symm

/-! ### Runs, step by step -/

section Runs

def opened (m : Watch β) (p : PlaceId) (kind : ScopeKind) : Watch β :=
  { m with pool := { m.pool with
    world := (m.pool.world.openScope p kind).2
    running := ⟨p, [m.pool.world.instances.length]⟩ ::ₘ m.pool.running } }

def spawned (m : Watch β) (task : Task β) (p target : PlaceId) : Watch β :=
  { m with pool := { m.pool with world := (m.pool.world.spawnAt task p target).2 } }

/-- The next message of a lane arrives, if one waits there. -/
def delivered (m : Watch β) (lane : Lane) : Watch β :=
  { m with pool := { m.pool with world := (m.pool.world.deliver lane).getD m.pool.world } }

/-- A worker takes up the task at a position, if there is one. -/
def taken (m : Watch β) (n : ℕ) : Watch β :=
  match m.pool.world.takeJob n with
  | some (job, world) =>
    { m with pool := { m.pool with world, running := ⟨job.place, job.finishes⟩ ::ₘ m.pool.running } }
  | none => m

def finished (m : Watch β) (b : Body) (ending : Ending) : Watch β :=
  { m with pool := m.pool.finish b ending }

def told (m : Watch β) (s : Serial) : Watch β :=
  { m with pool := { m.pool with world := m.pool.world.tell s, closing := m.pool.closing.erase s } }

/-- The owner of a scope leaves it. -/
def departed (m : Watch β) (r : Serial) : Watch β :=
  match m.pool.world.instance? r with
  | some i => { m with
    pool := { m.pool with world := (m.pool.world.leave r).2, left := r :: m.pool.left }
    handed := m.handed ++ i.exceptions.map fun f => (r, f) }
  | none => m

def dumpedAt (m : Watch β) (p : PlaceId) : Watch β :=
  { m with
    pool := { m.pool with world := (m.pool.world.dump p).2 }
    dumped := m.dumped ++ (m.pool.world.dump p).1.map fun e => (p, e) }

namespace Reachable

variable (h : Reachable rule m)

include h

theorem opened (p : PlaceId) (kind : ScopeKind) (hp : m.pool.world.Built p) :
    Reachable rule (m.opened p kind) :=
  h.step (.act _ _ (.openScope _ p kind hp))

theorem spawned (task : Task β) (p target : PlaceId) (ha : m.pool.Admits rule task p target) :
    Reachable rule (m.spawned task p target) :=
  h.step (.act _ _ (.spawn _ task p target ha))

theorem delivered (lane : Lane) : Reachable rule (m.delivered lane) := by
  unfold Watch.delivered
  cases hw : m.pool.world.deliver lane with
  | none => exact h
  | some w => exact h.step (.act _ _ (.deliver _ lane w hw))

theorem taken (n : ℕ) : Reachable rule (m.taken n) := by
  unfold Watch.taken
  split
  · rename_i job w hw
    exact h.step (.act _ _ (.take _ n job w hw))
  · exact h

theorem finished (b : Body) (ending : Ending) (hb : b ∈ m.pool.running) :
    Reachable rule (m.finished b ending) :=
  h.step (.act _ _ (.finish _ b ending hb))

theorem told (s : Serial) (hs : s ∈ m.pool.closing) : Reachable rule (m.told s) :=
  h.step (.act _ _ (.tell _ s hs))

theorem departed (r : Serial)
    (hr : ∀ i ∈ m.pool.world.instance? r, i.remoteId? = none ∧ i.isReleasable = true) :
    Reachable rule (m.departed r) := by
  unfold Watch.departed
  split
  · rename_i i hi
    exact h.step (.leave _ r i hi (hr i hi).1 (hr i hi).2)
  · exact h

theorem dumpedAt (p : PlaceId) : Reachable rule (m.dumpedAt p) := h.step (.dump _ p)

end Reachable

/-- A debug scope at place 0 spawns a task at place 1, which panics. The diagnostics there are dumped
before the failure comes home. -/
def dumpedAway : Watch Unit :=
  (start 2 .plain 0).opened ⟨0⟩ .debug
    |>.spawned ⟨[0], ⟨0⟩, ()⟩ ⟨0⟩ ⟨1⟩ |>.delivered ⟨some ⟨0⟩, ⟨1⟩⟩ |>.taken 0
    |>.finished ⟨⟨1⟩, [1]⟩ (.panicked .opaquely) |>.dumpedAt ⟨1⟩
    |>.delivered ⟨some ⟨1⟩, ⟨0⟩⟩

theorem reachable_dumpedAway : Reachable .registered dumpedAway := by
  have h0 : Reachable .registered (start 2 .plain 0 : Watch Unit) := .start 2 .plain 0 (by decide)
  have h1 := h0.opened ⟨0⟩ .debug rfl
  have h2 := h1.spawned ⟨[0], ⟨0⟩, ()⟩ ⟨0⟩ ⟨1⟩
    ⟨by decide, fun _ => by decide, fun _ => by decide⟩
  have h3 := (h2.delivered ⟨some ⟨0⟩, ⟨1⟩⟩).taken 0
  have h4 := h3.finished ⟨⟨1⟩, [1]⟩ (.panicked .opaquely) (by decide)
  exact (h4.dumpedAt ⟨1⟩).delivered ⟨some ⟨1⟩, ⟨0⟩⟩

/-- The failure is recorded at both places, and nothing that was sent is on its way. -/
theorem recorded_dumpedAway : ∃ i, dumpedAway.pool.world.instance? 0 = some i ∧ i.remoteId? = none ∧
    i.kind = .debug ∧ dumpedAway.pool.world.net.packets = [] ∧
    dumpedAway.dumped.map (·.1) = [⟨1⟩] ∧
    (dumpedAway.recordedFor 0 ⟨1⟩).filter (·.1 = 1) = [(1, Failure.ofPanic .opaquely ⟨1⟩)] ∧
    (dumpedAway.recordedFor 0 ⟨0⟩).map (·.2) = [Failure.ofPanic .opaquely ⟨1⟩] := by
  have hi : dumpedAway.pool.world.instance? 0 = some _ := rfl
  obtain ⟨-, -, hdebug, -⟩ := recorded_exactly reachable_dumpedAway hi rfl
  obtain ⟨hhome, haway⟩ := hdebug rfl
  have hexc : dumpedAway.exceptions 0 = [Failure.ofPanic .opaquely ⟨1⟩] := by decide +kernel
  exact ⟨_, hi, rfl, rfl, rfl, rfl, ((haway ⟨1⟩ (by decide)).2 (by decide)).2 1, hhome.trans hexc⟩

/-! ### Less than that -/

/-- A task for the place 1 where it is spawned is registered with a debug scope of place 0, and
panics. -/
def governedAway : Watch Unit :=
  (start 2 .plain 0).opened ⟨0⟩ .debug
    |>.spawned ⟨[0], ⟨1⟩, ()⟩ ⟨1⟩ ⟨1⟩ |>.taken 0
    |>.finished ⟨⟨1⟩, [0]⟩ (.panicked .opaquely)

theorem reachable_governedAway : Reachable .any governedAway := by
  have h0 : Reachable .any (start 2 .plain 0 : Watch Unit) := .start 2 .plain 0 (by decide)
  have h1 := h0.opened ⟨0⟩ .debug rfl
  have h2 := h1.spawned ⟨[0], ⟨1⟩, ()⟩ ⟨1⟩ ⟨1⟩ ⟨by decide, fun h => absurd rfl h, nofun⟩
  exact (h2.taken 0).finished ⟨⟨1⟩, [0]⟩ (.panicked .opaquely) (by decide)

/-- A debug scope of place 0 is left, after a task for a place that is out of reach was refused. Then
a task for place 1 is registered with it, and panics. -/
def governedLate : Watch Unit :=
  (start 2 .plain 0).opened ⟨0⟩ .debug
    |>.spawned ⟨[0], ⟨0⟩, ()⟩ ⟨0⟩ ⟨2⟩
    |>.finished ⟨⟨0⟩, [0]⟩ .well |>.told 0 |>.departed 0
    |>.spawned ⟨[0], ⟨0⟩, ()⟩ ⟨0⟩ ⟨1⟩ |>.delivered ⟨some ⟨0⟩, ⟨1⟩⟩ |>.taken 0
    |>.finished ⟨⟨1⟩, [1]⟩ (.panicked .opaquely) |>.delivered ⟨some ⟨1⟩, ⟨0⟩⟩

theorem reachable_governedLate : Reachable .governed governedLate := by
  have h0 : Reachable .governed (start 2 .plain 0 : Watch Unit) := .start 2 .plain 0 (by decide)
  have h1 := h0.opened ⟨0⟩ .debug rfl
  have h2 := h1.spawned ⟨[0], ⟨0⟩, ()⟩ ⟨0⟩ ⟨2⟩ ⟨by decide, fun _ => by decide, nofun⟩
  have h3 := (h2.finished ⟨⟨0⟩, [0]⟩ .well (by decide)).told 0 (by decide)
  have h4 := h3.departed 0 (by decide +kernel)
  have h5 := h4.spawned ⟨[0], ⟨0⟩, ()⟩ ⟨0⟩ ⟨1⟩ ⟨by decide +kernel, fun _ => by decide, nofun⟩
  have h6 := (h5.delivered ⟨some ⟨0⟩, ⟨1⟩⟩).taken 0
  have h7 := h6.finished ⟨⟨1⟩, [1]⟩ (.panicked .opaquely) (by decide +kernel)
  exact h7.delivered ⟨some ⟨1⟩, ⟨0⟩⟩

/-- A debug scope of place 0 has a task at place 1. A task of place 0 is registered with the instances
at both places, so that more tasks end at place 1 than were spawned there. One more for place 1 makes up
for that, and spawns one for place 0. When that has ended, and the body of the scope has, the scope is
left. Then the task at place 1 panics. -/
def governedEarly : Watch Unit :=
  (start 2 .plain 0).opened ⟨0⟩ .debug
    |>.spawned ⟨[0], ⟨0⟩, ()⟩ ⟨0⟩ ⟨1⟩ |>.delivered ⟨some ⟨0⟩, ⟨1⟩⟩ |>.taken 0
    |>.spawned ⟨[0, 1], ⟨0⟩, ()⟩ ⟨0⟩ ⟨0⟩ |>.taken 0
    |>.finished ⟨⟨0⟩, [0, 1]⟩ .well |>.told 0 |>.told 1
    |>.finished ⟨⟨1⟩, [1]⟩ .well |>.told 1 |>.delivered ⟨some ⟨1⟩, ⟨0⟩⟩
    |>.spawned ⟨[0], ⟨0⟩, ()⟩ ⟨0⟩ ⟨1⟩ |>.delivered ⟨some ⟨0⟩, ⟨1⟩⟩ |>.taken 0
    |>.spawned ⟨[2], ⟨1⟩, ()⟩ ⟨1⟩ ⟨0⟩ |>.delivered ⟨some ⟨1⟩, ⟨0⟩⟩ |>.taken 0
    |>.finished ⟨⟨0⟩, [0]⟩ .well |>.told 0
    |>.finished ⟨⟨0⟩, [0]⟩ .well |>.told 0 |>.departed 0
    |>.finished ⟨⟨1⟩, [2]⟩ (.panicked .opaquely) |>.delivered ⟨some ⟨1⟩, ⟨0⟩⟩

theorem reachable_governedEarly : Reachable .governed governedEarly := by
  have h0 : Reachable .governed (start 2 .plain 0 : Watch Unit) := .start 2 .plain 0 (by decide)
  have h1 := h0.opened ⟨0⟩ .debug rfl
  have h2 := h1.spawned ⟨[0], ⟨0⟩, ()⟩ ⟨0⟩ ⟨1⟩ ⟨by decide, fun _ => by decide, nofun⟩
  have h3 := (h2.delivered ⟨some ⟨0⟩, ⟨1⟩⟩).taken 0
  have h4 := h3.spawned ⟨[0, 1], ⟨0⟩, ()⟩ ⟨0⟩ ⟨0⟩
    ⟨by decide +kernel, fun _ => by decide +kernel, nofun⟩
  have h5 := (h4.taken 0).finished ⟨⟨0⟩, [0, 1]⟩ .well (by decide +kernel)
  have h6 := (h5.told 0 (by decide +kernel)).told 1 (by decide +kernel)
  have h7 := (h6.finished ⟨⟨1⟩, [1]⟩ .well (by decide +kernel)).told 1 (by decide +kernel)
  have h8 := (h7.delivered ⟨some ⟨1⟩, ⟨0⟩⟩).spawned ⟨[0], ⟨0⟩, ()⟩ ⟨0⟩ ⟨1⟩
    ⟨by decide +kernel, fun _ => by decide +kernel, nofun⟩
  have h9 := ((h8.delivered ⟨some ⟨0⟩, ⟨1⟩⟩).taken 0).spawned ⟨[2], ⟨1⟩, ()⟩ ⟨1⟩ ⟨0⟩
    ⟨by decide +kernel, fun _ => by decide +kernel, nofun⟩
  have h10 := (h9.delivered ⟨some ⟨1⟩, ⟨0⟩⟩).taken 0
  have h11 := (h10.finished ⟨⟨0⟩, [0]⟩ .well (by decide +kernel)).told 0 (by decide +kernel)
  have h12 := (h11.finished ⟨⟨0⟩, [0]⟩ .well (by decide +kernel)).told 0 (by decide +kernel)
  have h13 := h12.departed 0 (by decide +kernel)
  have h14 := h13.finished ⟨⟨1⟩, [2]⟩ (.panicked .opaquely) (by decide +kernel)
  exact h14.delivered ⟨some ⟨1⟩, ⟨0⟩⟩

/-- Where the instance that governs a body lives elsewhere, nothing is recorded where the body runs: its
failure is recorded where the instance is. Where an instance of a task holds none any more, or does not
live where the task is spawned and runs, a body may run that is governed by a scope that has been left.
Its failure arrives when the root has gone, and is none of its exceptions. -/
theorem recorded_astray :
    (∃ i, Reachable .any governedAway ∧ governedAway.pool.world.instance? 0 = some i ∧
      i.remoteId? = none ∧ i.kind = .debug ∧ governedAway.pool.world.net.packets = [] ∧
      governedAway.pool.reportedAt 0 ⟨1⟩ = [(0, Failure.ofPanic .opaquely ⟨1⟩)] ∧
      governedAway.recordedFor 0 ⟨1⟩ = []) ∧
    (∃ i, Reachable .governed governedLate ∧ governedLate.pool.world.instance? 0 = some i ∧
      i.remoteId? = none ∧ i.kind = .debug ∧ governedLate.pool.world.net.packets = [] ∧
      governedLate.pool.reportedAt 0 ⟨1⟩ = [(1, Failure.ofPanic .opaquely ⟨1⟩)] ∧
      governedLate.exceptions 0 = []) ∧
    ∃ i, Reachable .governed governedEarly ∧ governedEarly.pool.world.instance? 0 = some i ∧
      i.remoteId? = none ∧ i.kind = .debug ∧ governedEarly.pool.world.net.packets = [] ∧
      governedEarly.pool.reportedAt 0 ⟨1⟩ = [(2, Failure.ofPanic .opaquely ⟨1⟩)] ∧
      governedEarly.exceptions 0 = [] :=
  ⟨⟨_, reachable_governedAway, rfl, rfl, rfl, rfl, by decide +kernel, by decide +kernel⟩,
    ⟨_, reachable_governedLate, rfl, rfl, rfl, rfl, by decide +kernel, by decide +kernel⟩,
    _, reachable_governedEarly, rfl, rfl, rfl, rfl, by decide +kernel, by decide +kernel⟩

end Runs

end Watch

end Quiescence
