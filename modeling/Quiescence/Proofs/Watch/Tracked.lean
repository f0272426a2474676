/-
# Bodies under a rule

A `Rule` says what tasks may be registered with. Under any rule the failures that
an instance away from home has been given are those of the bodies it governed.
That a body runs where the instance that governs it lives is needed to say of
which place they are; that all instances of a task hold one, to say that no
failure was sent to a root that has gone.

* `Act`: the steps that leave no scope and touch no diagnostics.
* `Tracked`: what each step keeps. Under the strictest rule the ledger is that of
  the bodies (`Kept`).
* `Act.tracked`: so it does, and what it does for failures is an `Effect`.
-/
import Quiescence.Proofs.Retention

namespace Quiescence

/-- What a task may be registered with. Its instances are there in any case. -/
inductive Rule where
  /-- Any instances. -/
  | any
  /-- One that governs a task for the place where it is spawned is there. -/
  | governed
  /-- All hold a task not ended, and those of a task for the place where it is spawned are there. -/
  | registered
  deriving DecidableEq

namespace Pool

variable {β : Type}

structure Admits (rule : Rule) (m : Pool β) (task : Task β) (p target : PlaceId) : Prop where
  made : ∀ s ∈ task.finishes, (m.world.placeOf? s).isSome
  governed : rule ≠ .any → target = p →
    ∀ s, task.finishes.head? = some s → m.world.placeOf? s = some p
  registered : rule = .registered →
    ∀ s ∈ task.finishes, s ∈ m.untold ∧ (target = p → m.world.placeOf? s = some p)

/-- The steps of a run that leave no scope and touch no diagnostics. -/
inductive Act (rule : Rule) : Pool β → Pool β → Prop where
  | openScope (m p kind) : m.world.Built p → Act rule m { m with
      world := (m.world.openScope p kind).2
      running := ⟨p, [m.world.instances.length]⟩ ::ₘ m.running }
  | spawn (m task p target) : Admits rule m task p target →
      Act rule m { m with world := (m.world.spawnAt task p target).2 }
  | take (m n job w) : m.world.takeJob n = some (job, w) → Act rule m { m with
      world := w
      running := ⟨job.place, job.finishes⟩ ::ₘ m.running }
  | finish (m b ending) : b ∈ m.running → Act rule m (m.finish b ending)
  | tell (m s) : s ∈ m.closing →
      Act rule m { m with world := m.world.tell s, closing := m.closing.erase s }
  | deliver (m lane w) : m.world.deliver lane = some w → Act rule m { m with world := w }
  | kill (m p w) : m.world.kill p = .ok w → Act rule m { m with world := w }
  /-- The number of places changes. Those that are out of reach stay so, where the accounts of scopes
  are to be right. -/
  | resize (m known) : (rule = .registered →
        ∀ p, m.world.Built p → m.world.net.Refuses p → (m.world.resize known).net.Refuses p) →
      Act rule m { m with world := m.world.resize known }
  /-- Statistics are kept of what has been done. -/
  | count (m p) (f : Stats → Stats) : Act rule m { m with
      world := m.world.modifySite p fun site => { site with stats := f site.stats } }

/-! ### What each step keeps -/

variable {rule : Rule} {m m' : Pool β} {g g' : Ledger β}

/-- The body is yet to be taken up, runs, or has ended. -/
def HasBody (m : Pool β) (b : Body) : Prop :=
  b ∈ m.running ∨ (∃ job ∈ m.world.jobs, b = ⟨job.place, job.finishes⟩) ∨ ∃ x ∈ m.ended, b = x.toBody

/-- The instances of the body are there, and the one that governs it is at its place if the rule asks
for that. -/
structure Manned (rule : Rule) (w : World Pairwise β) (b : Body) : Prop where
  made : ∀ s ∈ b.finishes, (w.placeOf? s).isSome
  governed : rule ≠ .any → ∀ s, b.finishes.head? = some s → w.placeOf? s = some b.place

theorem Manned.of_placed {w : World Pairwise β} {b : Body}
    (h : ∀ s ∈ b.finishes, w.placeOf? s = some b.place) : Manned rule w b :=
  ⟨fun s hs => by rw [h s hs]; rfl, fun _ s hs => h s (List.mem_of_mem_head? hs)⟩

theorem Manned.mono {w w' : World Pairwise β} {b : Body} (h : Manned rule w b)
    (hp : ∀ s p, w.placeOf? s = some p → w'.placeOf? s = some p) : Manned rule w' b where
  made s hs := by
    obtain ⟨p, hsp⟩ := Option.isSome_iff_exists.mp (h.made s hs)
    rw [hp s p hsp]
    rfl
  governed hr s hs := hp s _ (h.governed hr s hs)

/-- The failures that some bodies reported, each with the instance it was reported to. -/
def reports (bs : List Ended) : List (Serial × Failure) :=
  bs.filterMap fun b => b.entry?.map fun e => (e.scope, e.failure)

/-- What bodies have reported to an instance. -/
def reportsTo (m : Pool β) (s : Serial) : List (Serial × Failure) :=
  reports (m.ended.filter (·.finishes.head? = some s))

structure Tracked (rule : Rule) (m : Pool β) (g : Ledger β) : Prop where
  orderly : m.world.Orderly
  uniform : m.world.Uniform
  addressees : m.world.Addressees g
  manned : ∀ b, m.HasBody b → Manned rule m.world b
  /-- To an instance away from home only bodies report. -/
  heard : ∀ s, ¬ m.world.IsRoot s → g.reportsTo s = m.reportsTo s
  kept : rule = .registered → Kept m g

theorem tracked_start {places : ℕ} (hp : places ≤ UInt32.size) (kind : ScopeKind) (spins : ℕ) :
    Tracked rule (start places kind spins : Pool β) .empty where
  orderly := (World.consistent_start rfl hp kind spins).orderly
  uniform := World.uniform_start rfl places kind spins
  addressees := List.forall_mem_nil _
  manned b hb := by
    rcases hb with hb | ⟨_, hb, -⟩ | ⟨_, hb, -⟩
    · exact absurd hb (Multiset.notMem_zero b)
    · cases hb
    · cases hb
  heard _ _ := rfl
  kept _ := kept_start hp kind spins

/-- What an operation on the world comes to. -/
theorem Tracked.next (h : Tracked rule m g) (ho : World.Operates m.world m'.world)
    (hu : m'.world.Uniform) (he : World.Effect m.world g m'.world g')
    (hb : ∀ b, m'.HasBody b → m.HasBody b ∨ Manned rule m'.world b)
    (hheard : ∀ s, ¬ m.world.IsRoot s → g.reportsTo s = m.reportsTo s → g'.reportsTo s = m'.reportsTo s)
    (hk : rule = .registered → Kept m' g') : Tracked rule m' g' := by
  have hm := ho.moved h.orderly
  exact {
    orderly := hm.orderly h.orderly
    uniform := hu
    addressees := he.addressees h.addressees
    manned := fun b hx => (hb b hx).elim (fun hx => (h.manned b hx).mono fun _ _ => hm.lasts.placeOf?) id
    heard := fun s hs =>
      have hs : ¬ m.world.IsRoot s := fun hr => hs (hm.lasts.isRoot hr)
      hheard s hs (h.heard s hs)
    kept := hk }

/-- No failure is reported. -/
theorem Tracked.quiet (h : Tracked rule m g) (ho : World.Operates m.world m'.world)
    (hu : m'.world.Uniform) (hq : World.Quiet m.world g m'.world g')
    (hb : ∀ b, m'.HasBody b → m.HasBody b ∨ Manned rule m'.world b)
    (hend : m'.reportsTo = m.reportsTo)
    (hk : rule = .registered → Kept m' g') :
    ∃ g', Tracked rule m' g' ∧ World.Effect m.world g m'.world g' :=
  ⟨g', h.next ho hu (.quiet hq) hb (fun s _ hs => by
    rw [World.reportsTo_congr hq.reported, hs, hend]) hk, .quiet hq⟩

/-- The bodies are the same, but for those of some tasks that were handed over. -/
theorem hasBody_hands {w : World Pairwise β} {new : List (Job β)} (hj : w.jobs = m.world.jobs ++ new)
    (hn : ∀ job ∈ new, Manned rule w ⟨job.place, job.finishes⟩) (b : Body)
    (hb : ({ m with world := w } : Pool β).HasBody b) : m.HasBody b ∨ Manned rule w b := by
  rcases hb with hb | ⟨job, hjob, rfl⟩ | hb
  · exact .inl (.inl hb)
  · rcases List.mem_append.mp (hj ▸ hjob : job ∈ m.world.jobs ++ new) with hm | hm
    · exact .inl (.inr (.inl ⟨job, hm, rfl⟩))
    · exact .inr (hn job hm)
  · exact .inl (.inr (.inr hb))

theorem hasBody_same {w : World Pairwise β} (hj : w.jobs = m.world.jobs) (b : Body)
    (hb : ({ m with world := w } : Pool β).HasBody b) : m.HasBody b ∨ Manned rule w b :=
  hasBody_hands (hj.trans (List.append_nil _).symm) (List.forall_mem_nil _) b hb

theorem hasBody_finish {b : Body} (hb : b ∈ m.running) {ending : Ending}
    (hj : (m.finish b ending).world.jobs = m.world.jobs) (b' : Body)
    (hb' : (m.finish b ending).HasBody b') : m.HasBody b' := by
  rcases hb' with hx | ⟨job, hjob, rfl⟩ | ⟨x, hx, rfl⟩
  · exact .inl (Multiset.mem_of_mem_erase hx)
  · exact .inr (.inl ⟨job, hj ▸ hjob, rfl⟩)
  · rcases List.mem_append.mp hx with hx | hx
    · exact .inr (.inr ⟨x, hx, rfl⟩)
    · rw [List.mem_singleton.mp hx]
      exact .inl hb

theorem reportsTo_finish (m : Pool β) (b : Body) (ending : Ending) (s : Serial) :
    (m.finish b ending).reportsTo s = m.reportsTo s ++
      (((Ended.entry? ⟨b, ending⟩).filter (·.scope = s)).map fun e => (e.scope, e.failure)).toList := by
  have hx : Ended.entry? ⟨b, ending⟩ = b.finishes.head?.bind fun s =>
      (Ended.failure? ⟨b, ending⟩).map fun f => ⟨s, b.place, f⟩ := rfl
  unfold reportsTo reports Pool.finish
  rw [List.filter_append, List.filterMap_append]
  congr 1
  cases hs : b.finishes.head? with
  | none => simp [hs, hx]
  | some t =>
    rw [hs] at hx
    cases hf : Ended.failure? ⟨b, ending⟩ <;> rw [hf] at hx <;>
      by_cases hts : t = s <;> simp [hs, hts, hx, Option.filter_some]

/-- A body ends that leaves no failure, or reports one to the instance that governs it. -/
theorem Tracked.finish (h : Tracked rule m g) {b : Body} (hb : b ∈ m.running) (ending : Ending) :
    ∃ g', Tracked rule (m.finish b ending) g' ∧ World.Effect m.world g (m.finish b ending).world g' := by
  have hend := reportsTo_finish m b ending
  cases hx : Ended.entry? ⟨b, ending⟩ with
  | none =>
    simp only [hx, Option.filter_none, Option.map_none, Option.toList_none, List.append_nil] at hend
    have hw := world_finish (m := m) hx
    refine h.quiet (hw ▸ .elsewhere _ (.refl _)) (hw ▸ h.uniform) ?_ (fun b' hb' => .inl ?_) (funext hend)
      fun hrule => (h.kept hrule).finish_well hb hx
    · rw [hw]
      exact .of_instances rfl rfl rfl rfl
    · exact hasBody_finish hb (congrArg World.jobs hw) b' hb'
  | some e =>
    obtain ⟨hsb, -, hw⟩ := world_finish_failed (m := m) hx
    obtain ⟨q, hq⟩ := Option.isSome_iff_exists.mp ((h.manned b (.inl hb)).made e.scope hsb)
    obtain ⟨i, hi, -⟩ := Option.map_eq_some_iff.mp hq
    obtain ⟨j, hn⟩ := World.notes_addSuppressed (h.orderly.built e.scope i hi) hi e.failure
    have he := World.effect_addSuppressed h.orderly g hi e.failure
    have hpks := World.packets_addSuppressed m.world e.scope e.failure
    rw [← hw] at he hn hpks
    refine ⟨_, h.next ?_ (h.uniform.notes hn hpks) he (fun b' hb' => .inl ?_) (fun s _ hs => ?_)
      (fun hrule => (h.kept hrule).finish_failed hb hx), he⟩
    · rw [hw]
      exact .fail e.scope e.failure
    · refine hasBody_finish hb ?_ b' hb'
      rw [hw]
      exact (World.ground_addSuppressed m.world e.scope e.failure).2
    · have hrep : (m.world.afterFailure g e.scope e.failure).reported =
          g.reported ++ [⟨e.scope, i.place, e.failure⟩] :=
        congrArg (g.reported ++ ·) (World.entry_eq hi e.failure)
      rw [World.reportsTo_append hrep, hs, hend, hx]
      by_cases hse : s = e.scope
      · simp [hse, Option.filter_some]
      · simp [hse, Ne.symm hse, Option.filter_some]

theorem Act.tracked (hs : Act rule m m') (h : Tracked rule m g) :
    ∃ g', Tracked rule m' g' ∧ World.Effect m.world g m'.world g' := by
  have ho := h.orderly
  have hu := h.uniform
  cases hs with
  | openScope p kind hp =>
    refine h.quiet (.openScope p kind hp) (hu.openScope p kind) (World.quiet_openScope p kind)
      (fun b hb => ?_) rfl fun hrule => (h.kept hrule).openScope hp kind
    rcases hb with hb | hb
    · rcases Multiset.mem_cons.mp hb with rfl | hb
      · refine .inr (.of_placed fun s hs => ?_)
        rw [List.mem_singleton.mp hs]
        exact World.placeOf?_eq ((World.instance?_addInstance _ _ _).trans (if_pos rfl))
      · exact .inl (.inl hb)
    · exact .inl (.inr hb)
  | spawn task p target ha =>
    have hg := ho.grows_spawnAt task p target
    refine h.quiet (.spawnAt task p target) (hu.spawnAt ho task p target)
      (World.quiet_spawnAt ho g task p target)
      (hasBody_hands (World.jobs_spawnAt m.world task p target) fun job hj => ?_) rfl fun hrule => ?_
    · split_ifs at hj with htp
      · rw [List.mem_singleton.mp hj]
        exact Manned.mono ⟨ha.made, fun hr => ha.governed hr htp⟩ fun _ _ => hg.placeOf?
      · cases hj
    · have hk := h.kept hrule
      have hreg := ha.registered hrule
      obtain ⟨new, hh⟩ := World.hands_spawnAt hk.run.consistent hk.run.faithful
        fun htp s hx => (hreg s hx).2 htp
      exact hk.hands (.spawn _ _ task p target fun s hx => ⟨hk.held ▸ (hreg s hx).1, (hreg s hx).2⟩) hh
  | take n job w ht =>
    obtain ⟨hj, hw⟩ := World.takeJob_eq ht
    have hjob := List.mem_of_getElem? hj
    have ha : World.Alike m.world w := hw ▸ ⟨rfl, rfl, rfl⟩
    refine h.quiet (.elsewhere w ha) (hu.congr (World.steady_of_alike ha).toNamesakes (by rw [hw]; rfl)
      fun x hx => .inl (ha.net ▸ hx)) ?_ (fun b hb => ?_) rfl fun hrule => (h.kept hrule).take ht
    · subst hw
      exact .of_instances rfl rfl rfl rfl
    · subst hw
      rcases hb with hb | ⟨job', hj, rfl⟩ | hb
      · refine .inl ((Multiset.mem_cons.mp hb).elim (fun hb => .inr (.inl ⟨job, hjob, hb⟩)) .inl)
      · exact .inl (.inr (.inl ⟨job', List.mem_of_mem_eraseIdx hj, rfl⟩))
      · exact .inl (.inr (.inr hb))
  | finish b ending hb => exact h.finish hb ending
  | tell s hs =>
    exact h.quiet (.tell s) (hu.tell s) (World.quiet_tell m.world g s)
      (hasBody_same (World.ground_tell m.world s).2) rfl fun hrule => (h.kept hrule).tell hs
  | deliver lane w hw =>
    obtain ⟨he, hu'⟩ := World.effect_deliver ho g hu hw
    obtain ⟨new, hj, hn⟩ := World.jobs_deliver ho hw
    refine ⟨_, h.next (.deliver lane w hw) hu' he (hasBody_hands hj fun job hm => .of_placed (hn job hm))
      (fun s hs hr => ?_) (fun hrule => ?_), he⟩
    · rw [World.reportsTo_deliver ho g hs, hr]
      rfl
    · have hk := h.kept hrule
      obtain ⟨new, hh⟩ := World.hands_deliver hk.run.consistent hk.run.faithful hw
      exact hk.hands (.deliver _ _ lane w hw) hh
  | kill p w hw =>
    have hkill := World.Operates.kill p w hw
    cases hw
    exact h.quiet hkill (hu.congr ⟨rfl, rfl⟩ rfl fun x hx => .inl hx)
      (.of_instances rfl rfl rfl rfl) (hasBody_same rfl) rfl
      fun hrule => (h.kept hrule).kill rfl
  | resize known hk =>
    exact h.quiet (.resize known) (hu.congr ⟨rfl, rfl⟩ rfl fun x hx => .inl hx)
      (.of_instances rfl rfl rfl rfl) (hasBody_same rfl) rfl
      fun hrule => (h.kept hrule).resize (hk hrule)
  | count p f =>
    have hct := World.counts_modifySite m.world p f
    exact h.quiet (.elsewhere _ hct.toAlike) (hu.congr ⟨rfl, rfl⟩ rfl fun x hx => .inl hx)
      (.of_instances rfl (World.retained_counts hct) rfl rfl) (hasBody_same rfl) rfl
      fun hrule => (h.kept hrule).elsewhere hct.toAlike hct.toStill

/-- Nothing that is tracked changes but the failures an instance has, and what is retained. -/
theorem Tracked.frame (h : Tracked rule m g)
    (ho : World.Operates m.world m'.world) (hn : World.Namesakes m.world m'.world)
    (hk : m'.world.kindOf? = m.world.kindOf?) (hs : World.Still m.world m'.world)
    (hrun : m'.running = m.running) (hend : m'.ended = m.ended) (hrep : g'.reported = g.reported)
    (hkept : rule = .registered → Kept m' g') : Tracked rule m' g' where
  orderly := (ho.moved h.orderly).orderly h.orderly
  uniform := h.uniform.congr hn hk fun x hx => .inl (hs.net ▸ hx)
  addressees e he := by
    rw [hn.places]
    exact h.addressees e (hrep ▸ he)
  manned b hb := by
    have hb : m.HasBody b := by
      unfold HasBody at hb ⊢
      rwa [hrun, hend, hs.jobs] at hb
    exact (h.manned b hb).mono fun _ _ hp => by rwa [hn.places]
  heard s hr := by
    rw [World.reportsTo_congr hrep, h.heard s (hn.isRoot ▸ hr), reportsTo, reportsTo, hend]
  kept := hkept

/-- The failures that bodies of a scope reported at a place, each with the instance it was reported
to. -/
def reportedAt (m : Pool β) (r : Serial) (p : PlaceId) : List (Serial × Failure) :=
  reports ((m.governed r).filter (·.place = p))

/-- Those that were reported to one instance. -/
theorem filter_reportedAt (m : Pool β) (r s : Serial) (p : PlaceId) :
    (m.reportedAt r p).filter (·.1 = s) =
      reports (m.ended.filter fun b => b.finishes.head? = some s ∧ m.world.Akin r s ∧ b.place = p) := by
  unfold reportedAt reports governed
  rw [List.filter_filter, List.filter_filterMap, List.filterMap_filter, List.filterMap_filter]
  refine List.filterMap_congr fun b _ => ?_
  unfold Ended.entry?
  cases hs : b.finishes.head? with
  | none => simp
  | some t =>
    cases hf : b.failure? with
    | none => simp
    | some f =>
      by_cases hts : t = s
      · subst hts
        by_cases ha : m.world.Akin r t <;> by_cases hp : b.place = p <;> simp [ha, hp]
      · by_cases ha : m.world.Akin r t <;> by_cases hp : b.place = p <;> simp [ha, hp, hts]

end Pool

end Quiescence
