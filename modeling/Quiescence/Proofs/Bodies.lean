/-
# Bodies, and the failures they leave

A `Pool` is a run as the workers see it, any number of them at each place: the
bodies that run, in whatever order they are taken up and end, with the messages
that are delivered and the places that die in between. A body that ends reports
its failure to the first scope it is registered with, and then each scope it is
registered with is told. Tasks are spawned, at any time, with instances that
hold a task not ended, and that live at the spawning place if the task is for
that place.

* `Kept`: the invariant. The ledger of the run holds the tasks of the bodies
  that have not ended, and its entries are what the bodies reported.
* `Work`: the steps that open no scope, end no body and leave no scope.
* `steps_complete`, `steps_endBody`: the end of a task and of the body of a scope,
  in one go, are steps of a run.
* `failures_of_released`: what leaving a scope gives. The failures are those of the bodies
  that the scope governed, each once, and in order for each place.
-/
import Mathlib.Data.Multiset.Bind
import Mathlib.Logic.Relation
import Quiescence.Program.Machine
import Quiescence.Proofs.Failure.Wire
import Quiescence.Proofs.Fidelity

namespace Quiescence

/-- A body, with the instances it is registered with. The first governs it. -/
structure Body where
  place : PlaceId
  finishes : List Serial
  deriving DecidableEq

/-- A body that has ended. -/
structure Ended extends Body where
  ending : Ending

namespace Ended

/-- The failure captured where the body ran. -/
def failure? (b : Ended) : Option Failure := b.ending.failure? b.place

def failed (b : Ended) : Bool := b.ending ≠ .well

/-- The failure as the home place of the scope has it. One that was forwarded is in its canonical
form; a length that is no 64-bit word, which no place can hold, would not be read back. -/
def received? (home : PlaceId) (b : Ended) : Option Failure :=
  if b.place = home then b.failure?
  else b.failure?.map fun f => if f.fits then f.normalize else f.relayed home

/-- The entry that the end of the body makes in the ledger. -/
def entry? (b : Ended) : Option Entry :=
  b.finishes.head?.bind fun s => b.failure?.map fun f => ⟨s, b.place, f⟩

/-- What arrives is the canonical form. -/
theorem relayed_eq (home : PlaceId) (f : Failure) :
    f.relayed home = if f.fits then f.normalize else f.relayed home := by
  split_ifs with hf
  · have hd := Failure.decode_encode hf []
    rw [List.append_nil] at hd
    rw [Failure.relayed, hd]
    rfl
  · rfl

/-- Exactly the bodies that failed leave a failure. -/
theorem isSome_received? (home : PlaceId) (b : Ended) : (b.received? home).isSome = b.failed := by
  unfold received? failed failure? Ending.failure?
  cases b.ending <;> split_ifs <;> rfl

end Ended

namespace World

variable {β : Type}

/-- The failure of a body goes to the scope that governs it. -/
def capture (w : World Pairwise β) (finishes : List Serial) (failure : Option Failure) :
    World Pairwise β :=
  match failure, finishes with
  | some f, s :: _ => w.addSuppressed s f
  | _, _ => w

variable {w w' : World Pairwise β} {g g' : Ledger β} {p : PlaceId}

/-- What an operation does that ends no body: the jobs it hands to workers are held by their
instances, which are at their places. -/
structure Hands (w : World Pairwise β) (g : Ledger β) (w' : World Pairwise β) (g' : Ledger β)
    (new : List (Job β)) : Prop where
  places : ∀ s p, w.placeOf? s = some p → w'.placeOf? s = some p
  jobs : w'.jobs = w.jobs ++ new
  placed : ∀ job ∈ new, ∀ s ∈ job.finishes, w'.placeOf? s = some job.place
  held : g'.held = (new.flatMap (·.finishes) : Multiset Serial) + g.held
  left : g'.left = g.left
  lost : g'.lost = g.lost
  reports : w'.bodyReports g' = w.bodyReports g

/-- The failures reported so far are known by instances that stay where they are. -/
theorem bodyReports_congr (h : Faithful w g)
    (hp : ∀ s p, w.placeOf? s = some p → w'.placeOf? s = some p) (hrep : g'.reported = g.reported) :
    w'.bodyReports g' = w.bodyReports g := by
  unfold bodyReports
  rw [hrep]
  refine List.filter_congr fun e he => ?_
  have hsome : ∃ p, w.placeOf? e.scope = some p := by
    rcases h.placed e he with hx | ⟨_, -, hx⟩ <;> exact ⟨_, hx⟩
  obtain ⟨q, hq⟩ := hsome
  rw [hq, hp _ q hq]

theorem takeJob_eq {k : ℕ} {job : Job β} (h : w.takeJob k = some (job, w')) :
    w.jobs[k]? = some job ∧ w' = { w with jobs := w.jobs.eraseIdx k } := by
  unfold World.takeJob at h
  split at h
  · cases h
  · rename_i job' hj
    cases h
    exact ⟨hj, rfl⟩

/-- A task for the place itself waits for a worker there, and one for another place does not. -/
theorem jobs_spawnAt (w : World Pairwise β) (task : Task β) (p target : PlaceId) :
    (w.spawnAt task p target).2.jobs =
      w.jobs ++ if target = p then [⟨p, task.finishes, task.body⟩] else [] := by
  unfold World.spawnAt
  by_cases htp : target = p
  · have hst := (still_spawnAll w task.finishes p).trans (still_submitAll _ task.finishes)
    rw [if_pos htp, if_pos htp]
    exact congrArg (· ++ _) hst.jobs
  · rw [if_neg htp, if_neg htp, List.append_nil]
    have h0 := still_prepareAll w task.finishes
    rcases hr : w.prepareAll task.finishes with ⟨_ | tokens, w₁⟩ <;> rw [hr] at h0
    · exact h0.jobs
    · have h1 := h0.trans (still_spawnAll w₁ task.finishes target)
      simp only
      cases hsend : (w₁.spawnAll task.finishes target).send p target (.handOff tokens task.body) with
      | ok w₂ => exact (ground_send hsend).2.trans h1.jobs
      | error e => exact (h1.trans (still_unspawnAll _ task.finishes target)).jobs

theorem hands_spawnAt (hc : Consistent w g 0 []) (h : Faithful w g) {task : Task β}
    {target : PlaceId} (hs : target = p → ∀ s ∈ task.finishes, w.placeOf? s = some p) :
    ∃ new, Hands w g (w.spawnAt task p target).2 (w.afterSpawn g task p target) new := by
  have hg := hc.orderly.grows_spawnAt task p target
  have hplaces : ∀ s q, w.placeOf? s = some q → (w.spawnAt task p target).2.placeOf? s = some q :=
    fun s q => hg.placeOf?
  have hjobs := jobs_spawnAt w task p target
  by_cases htp : target = p
  · subst htp
    have hw : w.spawnAt task target target = (.ok (), w.spawnHere task target) := by
      simp [World.spawnAt]
    rw [if_pos rfl] at hjobs
    rw [hw] at hplaces hjobs hg
    unfold afterSpawn
    rw [hw]
    simp only [if_pos]
    refine ⟨_, hplaces, hjobs, ?_, ?_, rfl, rfl, bodyReports_congr h hplaces rfl⟩
    · intro job hj s hsj
      rw [List.mem_singleton.mp hj] at hsj ⊢
      exact hplaces s target (hs rfl s hsj)
    · simp
  · have hsame : (w.afterSpawn g task p target).held = g.held ∧
        (w.afterSpawn g task p target).left = g.left ∧
        (w.afterSpawn g task p target).lost = g.lost ∧
        (w.afterSpawn g task p target).reported = g.reported := by
      unfold afterSpawn
      cases (w.spawnAt task p target).1 with
      | error e => exact ⟨rfl, rfl, rfl, rfl⟩
      | ok _ => exact ⟨if_neg htp, rfl, rfl, rfl⟩
    obtain ⟨hheld, hleft, hlost, hrep⟩ := hsame
    rw [if_neg htp] at hjobs
    exact ⟨[], hplaces, hjobs, by simp, by simp [hheld], hleft, hlost,
      bodyReports_congr h hplaces hrep⟩

/-- A failure that has arrived is not one that a body reports: it comes from another place. -/
theorem bodyReports_arrival {e : Entry} (h : Faithful w g)
    (hp : ∀ s p, w.placeOf? s = some p → w'.placeOf? s = some p)
    (hrep : g'.reported = g.reported ++ [e]) (he : w'.placeOf? e.scope ≠ some e.place) :
    w'.bodyReports g' = w.bodyReports g := by
  rw [← bodyReports_congr h hp (rfl : g.reported = g.reported)]
  unfold bodyReports
  rw [hrep, List.filter_append, List.filter_cons_of_neg (by simpa using he), List.filter_nil,
    List.append_nil]

/-- Statistics are kept of what has been done. -/
theorem Hands.after {w'' : World Pairwise β} {new : List (Job β)} (h : Hands w g w' g' new)
    (ha : Alike w' w'') (hs : Still w' w'') : Hands w g w'' g' new := by
  have hpl : w''.placeOf? = w'.placeOf? := (steady_of_alike ha).places
  refine ⟨fun s p hx => ?_, hs.jobs.trans h.jobs,
    fun job hj s hx => ?_, h.held, h.left, h.lost, ?_⟩
  · rw [hpl, h.places s p hx]
  · rw [hpl, h.placed job hj s hx]
  · rw [← h.reports, bodyReports, bodyReports, hpl]

/-- A delivery hands over the task that has arrived, if it is one. -/
theorem hands_deliver (hc : Consistent w g 0 []) (h : Faithful w g) {lane : Lane}
    (hw : w.deliver lane = some w') : ∃ new, Hands w g w' (w.afterDelivery g lane) new := by
  obtain ⟨before, pk, after, w₁, hp, hb, ha, hct⟩ := hc.delivery hw
  suffices hs : ∃ new, Hands w g w₁ (w.afterDelivery g lane) new by
    obtain ⟨new, hs⟩ := hs
    exact ⟨new, hs.after hct.toAlike hct.toStill⟩
  generalize w.afterDelivery g lane = g' at ha ⊢
  cases ha with
  | stray sender dest tokens body =>
    exact ⟨[], fun _ _ hx => hx, (List.append_nil _).symm, by simp, by simp, rfl,
      rfl, rfl⟩
  | task sender dest tokens body accepted w₂ hbuilt ho hps =>
    have h2 := grows_acceptAll (w.withPackets (before ++ after)) dest tokens
    have h3 := still_acceptAll (w.withPackets (before ++ after)) dest tokens
    rw [ho] at h2 h3
    have hplaces : ∀ s q, w.placeOf? s = some q →
        (w₂.enqueue ⟨dest, accepted, body⟩).placeOf? s = some q := fun s q => h2.placeOf?
    refine ⟨[⟨dest, accepted, body⟩], hplaces, congrArg (· ++ _) h3.jobs,
      fun job hj s hsj => ?_, by simp, rfl, rfl, bodyReports_congr h hplaces rfl⟩
    rw [List.mem_singleton.mp hj] at hsj ⊢
    exact hps s hsj
  | report sender dest id deltas =>
    have h2 := grows_receiveReport (w.withPackets (before ++ after)) dest id deltas
    have h3 := still_receiveReport (w.withPackets (before ++ after)) dest id deltas
    have hplaces : ∀ s q, w.placeOf? s = some q →
        ((w.withPackets (before ++ after)).receiveReport dest id deltas).placeOf? s = some q :=
      fun s q => h2.placeOf?
    exact ⟨[], hplaces, h3.jobs.trans (List.append_nil _).symm,
      by simp, by simp, rfl, rfl, bodyReports_congr h hplaces rfl⟩
  | failure sender id payload r i hne hi hid hip hr hl =>
    obtain ⟨j, hch, -⟩ := changes_deliverFailure hi hr hl payload
    have hjobs := (ground_deliverFailure (w.withPackets (before ++ after)) id.home id payload).2
    have hpl : ((w.withPackets (before ++ after)).deliverFailure id.home id payload).placeOf? =
        w.placeOf? := hch.steady.places
    have hplaces : ∀ s q, w.placeOf? s = some q →
        ((w.withPackets (before ++ after)).deliverFailure id.home id payload).placeOf? s = some q :=
      fun s q hq => by rwa [hpl]
    have hrp : w.placeOf? r = some id.home := hip ▸ placeOf?_eq (w := w) hi
    refine ⟨[], hplaces, hjobs.trans (List.append_nil _).symm, by simp,
      by simp, rfl, rfl, bodyReports_arrival h hplaces rfl ?_⟩
    rw [hpl, hrp]
    exact fun hx => hne (Option.some.inj hx).symm

theorem content_due {s : Serial} {pk : Packet (Message β)} (h : pk ∈ w.due s) (tokens : List Token)
    (body : β) : pk.content ≠ .handOff tokens body := by
  unfold due at h
  split at h
  · cases h
  · split at h
    · cases h
    · split at h
      · cases h
      · rw [List.mem_singleton.mp h]
        nofun

theorem content_forward {s : Serial} {f : Failure} {pk : Packet (Message β)} (h : pk ∈ w.forward s f)
    (tokens : List Token) (body : β) : pk.content ≠ .handOff tokens body := by
  unfold forward at h
  split at h
  · cases h
  · split at h
    · cases h
    · rw [List.mem_singleton.mp h]
      nofun

/-- What was lost was meant for a root, and its place was made. -/
theorem built_of_lost (h : Consistent w g 0 []) {pk : Packet (Message β)} (hpk : pk ∈ g.lost)
    (hm : ∀ tokens body, pk.content ≠ .handOff tokens body) : w.Built pk.dest := by
  have ha := h.named.addressed pk (by simp [hpk])
  obtain ⟨id, hroot, hd⟩ : ∃ id, w.Rooted id ∧ pk.dest = id.home := by
    unfold Addressed at ha
    split at ha
    · rename_i hx
      exact absurd hx (hm _ _)
    · exact ⟨_, ha.1, ha.2.1⟩
    · exact ⟨_, ha.1, ha.2.1⟩
  obtain ⟨r, i, hi, -, hip, -⟩ := hroot.root
  rw [hd, ← hip]
  exact h.tidy.built r i hi

end World

/-- A run as the workers of all places see it. -/
structure Pool (β : Type) where
  world : World Pairwise β
  running : Multiset Body
  /-- The instances that are yet to be told of bodies that have ended. -/
  closing : Multiset Serial
  /-- The bodies that have ended, oldest first. -/
  ended : List Ended
  /-- The scopes that were left. -/
  left : List Serial

namespace Pool

variable {β : Type}

/-- Some places with nothing going on. -/
def start (places : ℕ) (kind : ScopeKind) (spins : ℕ) : Pool β :=
  ⟨.start (.empty places) places kind spins, 0, 0, [], []⟩

/-- The tasks that instances have accepted and not been told of. -/
def untold (m : Pool β) : Multiset Serial :=
  Multiset.bind m.running (fun b => (b.finishes : Multiset Serial)) + m.closing +
    (m.world.jobs.flatMap (·.finishes) : Multiset Serial)

/-- A body has ended, and its failure is reported. -/
def finish (m : Pool β) (b : Body) (ending : Ending) : Pool β :=
  { m with
    world := m.world.capture b.finishes (ending.failure? b.place)
    running := m.running.erase b
    closing := ↑b.finishes + m.closing
    ended := m.ended ++ [⟨b, ending⟩] }

inductive Step : Pool β → Pool β → Prop where
  /-- A scope is opened, and its body begins. -/
  | openScope (m p kind) : m.world.Built p → Step m { m with
      world := (m.world.openScope p kind).2
      running := ⟨p, [m.world.instances.length]⟩ ::ₘ m.running }
  | spawn (m task p target) :
      (∀ s ∈ task.finishes, s ∈ m.untold ∧ (target = p → m.world.placeOf? s = some p)) →
      Step m { m with world := (m.world.spawnAt task p target).2 }
  /-- A worker takes up a task. -/
  | take (m n job w) : m.world.takeJob n = some (job, w) → Step m { m with
      world := w
      running := ⟨job.place, job.finishes⟩ ::ₘ m.running }
  | finish (m b ending) : b ∈ m.running → Step m (m.finish b ending)
  | tell (m s) : s ∈ m.closing →
      Step m { m with world := m.world.tell s, closing := m.closing.erase s }
  | deliver (m lane w) : m.world.deliver lane = some w → Step m { m with world := w }
  /-- The owner of a scope that is released leaves. -/
  | leave (m r i) : m.world.instance? r = some i → i.remoteId? = none → i.isReleasable = true →
      Step m { m with world := (m.world.leave r).2, left := r :: m.left }
  | kill (m p w) : m.world.kill p = .ok w → Step m { m with world := w }
  /-- The number of places changes; those that were made and are out of reach stay so. -/
  | resize (m known) :
      (∀ p, m.world.Built p → m.world.net.Refuses p → (m.world.resize known).net.Refuses p) →
      Step m { m with world := m.world.resize known }
  /-- Statistics and diagnostics. -/
  | elsewhere (m w) : World.Alike m.world w → World.Still m.world w → Step m { m with world := w }

inductive Reachable : Pool β → Prop where
  | start (places kind spins) : places ≤ UInt32.size → Reachable (start places kind spins)
  | step {m m'} : Reachable m → Step m m' → Reachable m'

/-! ### The invariant -/

variable {m m' : Pool β} {g g' : Ledger β}

/-- The ledger of the run is that of its bodies. -/
structure Kept (m : Pool β) (g : Ledger β) : Prop where
  run : World.Reachable m.world g
  held : g.held = m.untold
  left : g.left = m.left
  running : ∀ b ∈ m.running, ∀ s ∈ b.finishes, m.world.placeOf? s = some b.place
  queued : ∀ job ∈ m.world.jobs, ∀ s ∈ job.finishes, m.world.placeOf? s = some job.place
  reports : m.world.bodyReports g = m.ended.filterMap Ended.entry?
  lost : ∀ pk ∈ g.lost, ∀ tokens body, pk.content ≠ .handOff tokens body

theorem kept_start {places : ℕ} (hp : places ≤ UInt32.size) (kind : ScopeKind) (spins : ℕ) :
    Kept (start places kind spins : Pool β) .empty where
  run := .start _ places kind spins rfl hp
  held := rfl
  left := rfl
  running := by simp [start]
  queued := by simp [start, World.start]
  reports := rfl
  lost := by simp [Ledger.empty]

theorem Kept.held_of_running (h : Kept m g) {b : Body} (hb : b ∈ m.running) {s : Serial}
    (hs : s ∈ b.finishes) : s ∈ g.held := by
  rw [h.held]
  exact Multiset.mem_add.mpr (.inl (Multiset.mem_add.mpr (.inl (Multiset.mem_bind.mpr ⟨b, hb, hs⟩))))

theorem Kept.held_of_closing (h : Kept m g) {s : Serial} (hs : s ∈ m.closing) : s ∈ g.held := by
  rw [h.held]
  exact Multiset.mem_add.mpr (.inl (Multiset.mem_add.mpr (.inr hs)))

theorem Kept.held_of_queued (h : Kept m g) {job : Job β} (hj : job ∈ m.world.jobs) {s : Serial}
    (hs : s ∈ job.finishes) : s ∈ g.held := by
  rw [h.held]
  exact Multiset.mem_add.mpr (.inr (List.mem_flatMap.mpr ⟨job, hj, hs⟩))

theorem Kept.hands (h : Kept m g) {w' : World Pairwise β} {new : List (Job β)}
    (hs : World.Step m.world g w' g') (hh : World.Hands m.world g w' g' new) :
    Kept { m with world := w' } g' where
  run := h.run.step hs
  held := by
    rw [hh.held, h.held]
    simp only [untold, hh.jobs, List.flatMap_append, ← Multiset.coe_add]
    abel
  left := hh.left.trans h.left
  running b hb s hsb := hh.places s _ (h.running b hb s hsb)
  queued job hj s hsj := by
    rw [show ({ m with world := w' } : Pool β).world.jobs = m.world.jobs ++ new from hh.jobs] at hj
    rcases List.mem_append.mp hj with hj | hj
    · exact hh.places s _ (h.queued job hj s hsj)
    · exact hh.placed job hj s hsj
  reports := hh.reports.trans h.reports
  lost := hh.lost ▸ h.lost

/-- Nothing that the bodies have to do with changes. -/
theorem Kept.frame (h : Kept m g) {w' : World Pairwise β} (hs : World.Step m.world g w' g')
    (hg : World.Grows m.world w') (hj : w'.jobs = m.world.jobs) (hheld : g'.held = g.held)
    (hleft : g'.left = g.left) (hrep : g'.reported = g.reported) (hlost : g'.lost = g.lost) :
    Kept { m with world := w' } g' where
  run := h.run.step hs
  held := by
    rw [hheld, h.held]
    simp only [untold, hj]
  left := hleft.trans h.left
  running b hb s hsb := hg.placeOf? (h.running b hb s hsb)
  queued job hjob s hsj := hg.placeOf? (h.queued job (hj ▸ hjob) s hsj)
  reports := (World.bodyReports_congr h.run.faithful (fun _ _ => hg.placeOf?) hrep).trans h.reports
  lost := hlost ▸ h.lost

theorem Kept.openScope (h : Kept m g) {p : PlaceId} (hp : m.world.Built p) (kind : ScopeKind) :
    Kept { m with
      world := (m.world.openScope p kind).2
      running := ⟨p, [m.world.instances.length]⟩ ::ₘ m.running } (m.world.afterOpen g p) where
  run := h.run.step (.openScope _ _ p kind hp)
  held := by
    show m.world.instances.length ::ₘ g.held = _
    rw [h.held]
    simp only [untold, Multiset.cons_bind, Multiset.coe_singleton, Multiset.singleton_add,
      Multiset.cons_add]
    rfl
  left := h.left
  running b hb s hsb := by
    rcases Multiset.mem_cons.mp hb with rfl | hb
    · rw [List.mem_singleton.mp hsb]
      have hnew : (m.world.openScope p kind).2.instance? m.world.instances.length = some _ :=
        (World.instance?_addInstance _ _ _).trans (if_pos rfl)
      exact World.placeOf?_eq hnew
    · exact (World.grows_openScope _ _ _).placeOf? (h.running b hb s hsb)
  queued job hj s hsj := (World.grows_openScope _ _ _).placeOf? (h.queued job hj s hsj)
  reports := (World.bodyReports_congr h.run.faithful
    (fun _ _ => (World.grows_openScope _ _ _).placeOf?) rfl).trans h.reports
  lost := h.lost

theorem Kept.take (h : Kept m g) {n : ℕ} {job : Job β} {w' : World Pairwise β}
    (ht : m.world.takeJob n = some (job, w')) :
    Kept { m with world := w', running := ⟨job.place, job.finishes⟩ ::ₘ m.running } g := by
  obtain ⟨hj, rfl⟩ := World.takeJob_eq ht
  obtain ⟨hn, hjn⟩ := List.getElem?_eq_some_iff.mp hj
  have hperm : (m.world.jobs[n] :: m.world.jobs.eraseIdx n).Perm m.world.jobs :=
    List.getElem_cons_eraseIdx_perm hn
  rw [hjn] at hperm
  exact {
    run := h.run.step (.elsewhere _ _ _ ⟨rfl, rfl, rfl⟩)
    held := by
      rw [h.held]
      simp only [untold, Multiset.cons_bind]
      rw [← Multiset.coe_eq_coe.mpr (hperm.flatMap_right (·.finishes)), List.flatMap_cons,
        ← Multiset.coe_add]
      abel
    left := h.left
    running := fun b hb s hsb => by
      rcases Multiset.mem_cons.mp hb with rfl | hb
      · exact h.queued job (hjn ▸ List.getElem_mem hn) s hsb
      · exact h.running b hb s hsb
    queued := fun j hj s hsj => h.queued j (List.mem_of_mem_eraseIdx hj) s hsj
    reports := h.reports
    lost := h.lost }

theorem Kept.tell (h : Kept m g) {s : Serial} (hs : s ∈ m.closing) :
    Kept { m with world := m.world.tell s, closing := m.closing.erase s } (m.world.afterTell g s) := by
  have hg := World.grows_tell m.world s
  have hjobs := (World.ground_tell m.world s).2
  have hheld : g.held = s ::ₘ ((Multiset.bind m.running fun b => (b.finishes : Multiset Serial)) +
      m.closing.erase s + (m.world.jobs.flatMap (·.finishes) : Multiset Serial)) := by
    rw [h.held, untold, ← Multiset.cons_add, ← Multiset.add_cons, Multiset.cons_erase hs]
  exact {
    run := h.run.step (.tell _ _ s (hheld ▸ Multiset.mem_cons_self ..))
    held := by
      show g.held.erase s = _
      rw [hheld, Multiset.erase_cons_head]
      simp only [untold, hjobs]
    left := h.left
    running := fun b hb t htb => hg.placeOf? (h.running b hb t htb)
    queued := fun job hj t htj => hg.placeOf? (h.queued job (hjobs ▸ hj) t htj)
    reports := (World.bodyReports_congr h.run.faithful (fun _ _ => hg.placeOf?) rfl).trans h.reports
    lost := fun pk hpk => by
      rcases List.mem_append.mp hpk with hpk | hpk
      · exact h.lost pk hpk
      · exact World.content_due (List.mem_of_mem_filter hpk) }

/-- A body ends; `w'` and `g'` are what its failure makes of the world and the ledger. -/
theorem Kept.end (h : Kept m g) {b : Body} (hb : b ∈ m.running) {ending : Ending} {w' : World Pairwise β}
    (hw : (m.finish b ending).world = w')
    (hrun : World.Reachable w' g') (hn : World.Namesakes m.world w')
    (hjobs : w'.jobs = m.world.jobs) (hheld : g'.held = g.held) (hleft : g'.left = g.left)
    (hrep : g'.reported = g.reported ++ (Ended.entry? ⟨b, ending⟩).toList)
    (hlost : ∀ pk ∈ g'.lost, ∀ tokens body, pk.content ≠ .handOff tokens body) :
    Kept (m.finish b ending) g' where
  run := hw ▸ hrun
  held := by
    rw [hheld, h.held]
    unfold untold
    rw [hw, hjobs]
    simp only [Pool.finish]
    rw [← Multiset.cons_erase hb, Multiset.cons_bind, Multiset.erase_cons_head]
    abel
  left := hleft.trans h.left
  running x hx s hs := by
    rw [hw, hn.places]
    exact h.running x (Multiset.mem_of_mem_erase hx) s hs
  queued job hj s hs := by
    rw [hw] at hj ⊢
    rw [hn.places]
    exact h.queued job (hjobs ▸ hj) s hs
  reports := by
    have hentry : ∀ e ∈ (Ended.entry? ⟨b, ending⟩).toList, m.world.placeOf? e.scope = some e.place := by
      intro e he
      obtain ⟨s, hs, hm⟩ := Option.bind_eq_some_iff.mp (Option.mem_toList.mp he)
      obtain ⟨f, -, rfl⟩ := Option.map_eq_some_iff.mp hm
      exact h.running b hb s (List.mem_of_mem_head? hs)
    have hreports := h.reports
    unfold World.bodyReports at hreports ⊢
    rw [hw, hrep, hn.places, List.filter_append, hreports, Pool.finish, List.filterMap_append,
      List.filter_eq_self.mpr fun e he => by simpa using hentry e he]
    cases hx : Ended.entry? ⟨b, ending⟩ <;> simp [hx]
  lost := hlost

/-- A body that leaves no failure to any scope changes nothing by its end. -/
theorem world_finish {b : Body} {ending : Ending} (hx : Ended.entry? ⟨b, ending⟩ = none) :
    (m.finish b ending).world = m.world := by
  unfold Pool.finish World.capture
  split
  · rename_i f s fs hfail hfs
    simp [Ended.entry?, Ended.failure?, hfail, hfs] at hx
  · rfl

/-- Otherwise the failure is reported to the scope that governs it. -/
theorem world_finish_failed {b : Body} {ending : Ending} {e : Entry}
    (hx : Ended.entry? ⟨b, ending⟩ = some e) : e.scope ∈ b.finishes ∧ e.place = b.place ∧
      (m.finish b ending).world = m.world.addSuppressed e.scope e.failure := by
  obtain ⟨s, hs, hm⟩ := Option.bind_eq_some_iff.mp hx
  obtain ⟨f, hfail, rfl⟩ := Option.map_eq_some_iff.mp hm
  obtain ⟨fs, hfs⟩ := List.head?_eq_some_iff.mp hs
  have hfs : b.finishes = s :: fs := hfs
  have hfail : ending.failure? b.place = some f := hfail
  refine ⟨hfs ▸ List.mem_cons_self .., rfl, ?_⟩
  rw [Pool.finish, hfail, hfs]
  rfl

theorem Kept.finish_well (h : Kept m g) {b : Body} (hb : b ∈ m.running) {ending : Ending}
    (hx : Ended.entry? ⟨b, ending⟩ = none) : Kept (m.finish b ending) g :=
  h.end hb (world_finish hx) h.run ⟨rfl, rfl⟩ rfl rfl rfl (by simp [hx]) h.lost

theorem Kept.finish_failed (h : Kept m g) {b : Body} (hb : b ∈ m.running) {ending : Ending} {e : Entry}
    (hx : Ended.entry? ⟨b, ending⟩ = some e) :
    Kept (m.finish b ending) (m.world.afterFailure g e.scope e.failure) := by
  obtain ⟨hsb, hep, hw⟩ := world_finish_failed (m := m) hx
  have hheld : e.scope ∈ g.held := h.held_of_running hb hsb
  obtain ⟨i, hi, hip⟩ := Option.map_eq_some_iff.mp (h.running b hb e.scope hsb)
  obtain ⟨j, hch⟩ := World.changes_addSuppressed hi e.failure
  have hjobs := (World.ground_addSuppressed m.world e.scope e.failure).2
  refine h.end hb hw (h.run.step (.fail _ _ e.scope e.failure hheld)) hch.steady.toNamesakes
    hjobs rfl rfl ?_ fun pk hpk => ?_
  · rw [hx]
    show g.reported ++ m.world.entry e.scope e.failure = _
    rw [World.entry_eq hi, hip, ← hep]
    rfl
  · rcases List.mem_append.mp hpk with hpk | hpk
    · exact h.lost pk hpk
    · exact World.content_forward (List.mem_of_mem_filter hpk)

theorem Kept.finish (h : Kept m g) {b : Body} (hb : b ∈ m.running) (ending : Ending) :
    ∃ g', Kept (m.finish b ending) g' := by
  cases hx : Ended.entry? ⟨b, ending⟩ with
  | none => exact ⟨g, h.finish_well hb hx⟩
  | some e => exact ⟨_, h.finish_failed hb hx⟩

theorem Kept.leave (h : Kept m g) {r : Serial} {i : Instance} (hi : m.world.instance? r = some i)
    (hr : i.remoteId? = none) (hz : i.isReleasable = true) :
    Kept { m with world := (m.world.leave r).2, left := r :: m.left } { g with left := r :: g.left } := by
  have hstill := World.still_leave m.world r
  obtain ⟨-, -, hinst, -⟩ := World.leave_spec hi
  have hn : World.Namesakes m.world (m.world.leave r).2 := World.namesakes_of_set hi hinst rfl rfl
  have hp : ∀ s p, m.world.placeOf? s = some p → (m.world.leave r).2.placeOf? s = some p :=
    fun s p hx => by rwa [hn.places]
  exact {
    run := h.run.step (.leave _ _ r i hi hr hz)
    held := by
      show g.held = _
      rw [h.held]
      simp only [untold, hstill.jobs]
    left := congrArg (r :: ·) h.left
    running := fun b hb s hsb => hp s _ (h.running b hb s hsb)
    queued := fun job hj s hsj => hp s _ (h.queued job (hstill.jobs ▸ hj) s hsj)
    reports := (World.bodyReports_congr h.run.faithful hp rfl).trans h.reports
    lost := h.lost }

theorem Kept.kill (h : Kept m g) {p : PlaceId} {w : World Pairwise β} (hw : m.world.kill p = .ok w) :
    Kept { m with world := w } g := by
  have hstep := World.Step.kill m.world g p w hw
  cases hw
  exact h.frame hstep (.of_instances rfl) rfl rfl rfl rfl rfl

theorem Kept.elsewhere (h : Kept m g) {w : World Pairwise β} (ha : World.Alike m.world w)
    (hw : World.Still m.world w) : Kept { m with world := w } g :=
  h.frame (.elsewhere _ _ w ha) (.of_instances ha.instance?) hw.jobs rfl rfl rfl rfl

/-- What was lost was for places that were made, and out of reach. -/
theorem Kept.resize (h : Kept m g) {known : ℕ}
    (hk : ∀ p, m.world.Built p → m.world.net.Refuses p → (m.world.resize known).net.Refuses p) :
    Kept { m with world := m.world.resize known } g := by
  have hc := h.run.consistent
  refine h.frame (.resize _ _ known fun pk hpk => ?_) (.of_instances rfl) rfl rfl rfl rfl rfl
  exact hk pk.dest (World.built_of_lost hc hpk (h.lost pk hpk)) (hc.lost pk hpk)

/-- At all times there is a ledger for the bodies. -/
theorem Kept.step (h : Kept m g) (hs : Step m m') : ∃ g', Kept m' g' := by
  have hc := h.run.consistent
  cases hs with
  | openScope p kind hp => exact ⟨_, h.openScope hp kind⟩
  | spawn task p target hs =>
    obtain ⟨new, hh⟩ := World.hands_spawnAt hc h.run.faithful fun htp s hx => (hs s hx).2 htp
    exact ⟨_, h.hands (.spawn _ _ task p target fun s hx => ⟨h.held ▸ (hs s hx).1, (hs s hx).2⟩) hh⟩
  | take n job w ht => exact ⟨_, h.take ht⟩
  | finish b ending hb => exact h.finish hb ending
  | tell s hs => exact ⟨_, h.tell hs⟩
  | deliver lane w hw =>
    obtain ⟨new, hh⟩ := World.hands_deliver hc h.run.faithful hw
    exact ⟨_, h.hands (.deliver _ _ lane w hw) hh⟩
  | leave r i hi hr hz => exact ⟨_, h.leave hi hr hz⟩
  | kill p w hw => exact ⟨g, h.kill hw⟩
  | resize known hk => exact ⟨g, h.resize hk⟩
  | elsewhere w ha hw => exact ⟨g, h.elsewhere ha hw⟩

theorem Reachable.kept (h : Reachable m) : ∃ g, Kept m g := by
  induction h with
  | start places kind spins hp => exact ⟨_, kept_start hp kind spins⟩
  | step _ hs ih =>
    obtain ⟨g, hg⟩ := ih
    exact hg.step hs

/-! ### Ends in one go -/

/-- Any number of steps. -/
abbrev Steps : Pool β → Pool β → Prop := Relation.ReflTransGen Step

theorem Reachable.steps (h : Reachable m) (hs : Steps m m') : Reachable m' := by
  induction hs with
  | refl => exact h
  | tail _ hs ih => exact ih.step hs

/-- The steps that open no scope, end no body and leave no scope. -/
inductive Work : Pool β → Pool β → Prop where
  | spawn (m task p target) :
      (∀ s ∈ task.finishes, s ∈ m.untold ∧ (target = p → m.world.placeOf? s = some p)) →
      Work m { m with world := (m.world.spawnAt task p target).2 }
  | take (m n job w) : m.world.takeJob n = some (job, w) → Work m { m with
      world := w
      running := ⟨job.place, job.finishes⟩ ::ₘ m.running }
  | tell (m s) : s ∈ m.closing →
      Work m { m with world := m.world.tell s, closing := m.closing.erase s }
  | deliver (m lane w) : m.world.deliver lane = some w → Work m { m with world := w }
  | kill (m p w) : m.world.kill p = .ok w → Work m { m with world := w }
  | resize (m known) :
      (∀ p, m.world.Built p → m.world.net.Refuses p → (m.world.resize known).net.Refuses p) →
      Work m { m with world := m.world.resize known }
  | elsewhere (m w) : World.Alike m.world w → World.Still m.world w → Work m { m with world := w }

theorem Work.step (h : Work m m') : Step m m' := by
  cases h with
  | spawn task p target hs => exact .spawn m task p target hs
  | take n job w ht => exact .take m n job w ht
  | tell s hs => exact .tell m s hs
  | deliver lane w hw => exact .deliver m lane w hw
  | kill p w hw => exact .kill m p w hw
  | resize known hk => exact .resize m known hk
  | elsewhere w ha hw => exact .elsewhere m w ha hw

def Works : Pool β → Pool β → Prop := Relation.ReflTransGen Work

theorem Works.steps (h : Works m m') : Steps m m' :=
  Relation.ReflTransGen.mono (fun _ _ => Work.step) _ _ h

theorem works_tellAll {fs : List Serial} {rest : Multiset Serial} (hc : m.closing = ↑fs + rest) :
    Works m { m with world := m.world.tellAll fs, closing := rest } := by
  induction fs generalizing m with
  | nil =>
    rw [Multiset.coe_nil, zero_add] at hc
    subst hc
    exact .refl
  | cons s fs ih =>
    have hs : m.closing = s ::ₘ (↑fs + rest) := by
      rw [hc, ← Multiset.cons_coe, Multiset.cons_add]
    have h1 : Work m _ := .tell m s (hs ▸ Multiset.mem_cons_self ..)
    refine .head h1 (ih ?_)
    show m.closing.erase s = _
    rw [hs, Multiset.erase_cons_head]

/-- After the body of a task has ended, its scopes are told. -/
theorem works_complete (m : Pool β) (job : Job β) (ending : Ending) :
    Works (m.finish ⟨job.place, job.finishes⟩ ending) { m with
      world := m.world.complete job (ending.failure? job.place)
      running := m.running.erase ⟨job.place, job.finishes⟩
      ended := m.ended ++ [⟨⟨job.place, job.finishes⟩, ending⟩] } := by
  have h1 := works_tellAll (m := m.finish ⟨job.place, job.finishes⟩ ending)
    (rfl : _ = ↑job.finishes + m.closing)
  refine h1.tail (.elsewhere _ _ ?_ ?_)
  · exact World.alike_modifySite _ job.place
      (fun site => { site with stats := site.stats.complete }) fun _ => rfl
  · exact World.still_modifySite _ _ _

/-- After the body of a scope has ended, the scope is told. -/
theorem works_endBody (m : Pool β) (p : PlaceId) (s : Serial) (ending : Ending) :
    Works (m.finish ⟨p, [s]⟩ ending) { m with
      world := m.world.endBody s (ending.failure? p)
      running := m.running.erase ⟨p, [s]⟩
      ended := m.ended ++ [⟨⟨p, [s]⟩, ending⟩] } := by
  have h1 := works_tellAll (m := m.finish ⟨p, [s]⟩ ending) (rfl : _ = ↑[s] + m.closing)
  have hw : (m.world.capture [s] (ending.failure? p)).tellAll [s] =
      m.world.endBody s (ending.failure? p) := by
    cases ending.failure? p <;> rfl
  rw [← hw]
  exact h1

/-- A task ends, reports its failure, and its scopes are told. -/
theorem steps_complete (m : Pool β) (job : Job β) (ending : Ending)
    (hb : ⟨job.place, job.finishes⟩ ∈ m.running) :
    Steps m { m with
      world := m.world.complete job (ending.failure? job.place)
      running := m.running.erase ⟨job.place, job.finishes⟩
      ended := m.ended ++ [⟨⟨job.place, job.finishes⟩, ending⟩] } :=
  .head (.finish m _ ending hb) (works_complete m job ending).steps

/-- The body of a scope ends, reports its failure, and the scope is told. -/
theorem steps_endBody (m : Pool β) (p : PlaceId) (s : Serial) (ending : Ending)
    (hb : ⟨p, [s]⟩ ∈ m.running) :
    Steps m { m with
      world := m.world.endBody s (ending.failure? p)
      running := m.running.erase ⟨p, [s]⟩
      ended := m.ended ++ [⟨⟨p, [s]⟩, ending⟩] } :=
  .head (.finish m _ ending hb) (works_endBody m p s ending).steps

/-! ### What leaving a scope gives -/

/-- The bodies that a scope governed: its own, and the tasks first registered with it. -/
def governed (m : Pool β) (r : Serial) : List Ended :=
  m.ended.filter fun b => b.finishes.head?.any fun s => m.world.Akin r s

/-- What the bodies of a scope reported at a place, as the root has it. -/
theorem Kept.reports_governed (h : Kept m g) (r : Serial) (home p : PlaceId) :
    (((m.world.bodyReports g).filter fun e => m.world.Akin r e.scope ∧ e.place = p).map fun e =>
        if p = home then e.failure else e.failure.relayed home) =
      ((m.governed r).filter (·.place = p)).filterMap (Ended.received? home) := by
  rw [h.reports, governed, List.filter_filter, List.filter_filterMap, List.map_filterMap,
    List.filterMap_filter]
  refine List.filterMap_congr fun b _ => ?_
  unfold Ended.entry? Ended.received?
  cases hs : b.finishes.head? with
  | none => simp
  | some s =>
    cases hf : b.failure? with
    | none => simp
    | some f =>
      have hr := Ended.relayed_eq home f
      by_cases hg : m.world.Akin r s ∧ b.place = p
      · obtain ⟨ha, rfl⟩ := hg
        by_cases hh : b.place = home
        · simp [ha, hh]
        · simp [ha, hh, ← hr]
      · rw [if_neg (by simpa [and_comm] using hg)]
        simp only [Option.bind_some, Option.map_some, Option.filter_some, decide_eq_true_eq, if_neg hg,
          Option.map_none]

/-- Where the failures of some bodies are told apart by place, there are some exactly if one of the
bodies failed. -/
theorem any_failed {bs : List Ended} {entries : List (PlaceId × Failure)} {home : PlaceId}
    (h : ∀ p, (entries.filter (·.1 = p)).map (·.2) =
      (bs.filter (·.place = p)).filterMap (Ended.received? home)) :
    bs.any Ended.failed = !entries.isEmpty := by
  rw [Bool.eq_iff_iff, List.any_eq_true]
  constructor
  · rintro ⟨b, hb, hf⟩
    rw [← Ended.isSome_received? home] at hf
    obtain ⟨f, hbf⟩ := Option.isSome_iff_exists.mp hf
    have hm : f ∈ (bs.filter (·.place = b.place)).filterMap (Ended.received? home) :=
      List.mem_filterMap.mpr ⟨b, List.mem_filter.mpr ⟨hb, by simp⟩, hbf⟩
    rw [← h b.place] at hm
    cases entries with
    | nil => simp at hm
    | cons e es => rfl
  · intro he
    cases entries with
    | nil => cases he
    | cons e es =>
      have hm : e.2 ∈ ((e :: es).filter (·.1 = e.1)).map (·.2) :=
        List.mem_map_of_mem (List.mem_filter.mpr ⟨List.mem_cons_self .., by simp⟩)
      rw [h e.1] at hm
      obtain ⟨b, hb, hbf⟩ := List.mem_filterMap.mp hm
      refine ⟨b, List.mem_of_mem_filter hb, ?_⟩
      rw [← Ended.isSome_received? home, hbf]
      rfl

theorem Kept.failures (hk : Kept m g) {r : Serial} {i : Instance} (hi : m.world.instance? r = some i)
    (hr : i.remoteId? = none) (hl : r ∉ m.left) (hz : m.world.isReleasable r = true) :
    ∃ entries : List (PlaceId × Failure),
      (m.world.leave r).1 =
        (if (m.governed r).any Ended.failed then .error (.multiple (entries.map (·.2))) else .ok ()) ∧
      ∀ p, (entries.filter (·.1 = p)).map (·.2) =
        ((m.governed r).filter (·.place = p)).filterMap (Ended.received? i.place) := by
  have hparts : ∀ p, (((g.reported.filter (·.scope = r)).map fun e => (e.place, e.failure)).filter
      (·.1 = p)).map (·.2) = ((m.governed r).filter (·.place = p)).filterMap
        (Ended.received? i.place) := fun p => by
    rw [← hk.reports_governed r i.place p, ← World.released_reports hk.run hi hr hz p,
      List.filter_map, List.filter_filter, List.map_map]
    congr 1
    exact List.filter_congr fun e _ => by simp [Bool.and_comm]
  refine ⟨_, ?_, hparts⟩
  have hmap : i.exceptions =
      ((g.reported.filter (·.scope = r)).map fun e => (e.place, e.failure)).map (·.2) := by
    rw [hk.run.faithful.kept r i hi hr (hk.left ▸ hl), List.map_map]
    rfl
  rw [World.leave_result hi, any_failed hparts, hmap, List.isEmpty_map]
  cases ((g.reported.filter (·.scope = r)).map fun e => (e.place, e.failure)).isEmpty <;> rfl

/-- Leaving a released scope gives the failures of the bodies that it governed, and is well exactly
if there are none. Of the failures, those of the bodies that ran at one place are in the order in
which the bodies ended. -/
theorem failures_of_released (h : Reachable m) {r : Serial} {i : Instance} (hi : m.world.instance? r = some i)
    (hr : i.remoteId? = none) (hl : r ∉ m.left) (hz : m.world.isReleasable r = true) :
    ∃ entries : List (PlaceId × Failure),
      (m.world.leave r).1 =
        (if (m.governed r).any Ended.failed then .error (.multiple (entries.map (·.2))) else .ok ()) ∧
      ∀ p, (entries.filter (·.1 = p)).map (·.2) =
        ((m.governed r).filter (·.place = p)).filterMap (Ended.received? i.place) := by
  obtain ⟨g, hk⟩ := h.kept
  exact hk.failures hi hr hl hz

/-- A scope at place 0 spawns a task at place 1, which panics. Its failure comes home, and so does
its report. -/
def panicAway : Pool Unit :=
  let m₀ : Pool Unit := start 2 .plain 0
  let m₁ : Pool Unit := { m₀ with
    world := (m₀.world.openScope ⟨0⟩ .plain).2
    running := ⟨⟨0⟩, [0]⟩ ::ₘ m₀.running }
  let m₂ : Pool Unit := { m₁ with world := (m₁.world.spawnAt ⟨[0], ⟨0⟩, ()⟩ ⟨0⟩ ⟨1⟩).2 }
  let m₃ : Pool Unit := { m₂ with world := (m₂.world.deliver ⟨some ⟨0⟩, ⟨1⟩⟩).getD m₂.world }
  let m₄ : Pool Unit := { m₃ with
    world := { m₃.world with jobs := [] }
    running := ⟨⟨1⟩, [1]⟩ ::ₘ m₃.running }
  let m₅ : Pool Unit := { m₄ with
    world := m₄.world.complete ⟨⟨1⟩, [1], ()⟩ (Ending.failure? ⟨1⟩ (.panicked .opaquely))
    running := m₄.running.erase ⟨⟨1⟩, [1]⟩
    ended := m₄.ended ++ [⟨⟨⟨1⟩, [1]⟩, .panicked .opaquely⟩] }
  let m₆ : Pool Unit := { m₅ with
    world := m₅.world.endBody 0 (Ending.failure? ⟨0⟩ .well)
    running := m₅.running.erase ⟨⟨0⟩, [0]⟩
    ended := m₅.ended ++ [⟨⟨⟨0⟩, [0]⟩, .well⟩] }
  let m₇ : Pool Unit := { m₆ with world := (m₆.world.deliver ⟨some ⟨1⟩, ⟨0⟩⟩).getD m₆.world }
  { m₇ with world := (m₇.world.deliver ⟨some ⟨1⟩, ⟨0⟩⟩).getD m₇.world }

theorem reachable_panicAway : Reachable panicAway := by
  have h0 : Reachable (start 2 .plain 0 : Pool Unit) := .start 2 .plain 0 (by decide)
  have h1 := h0.step (.openScope _ ⟨0⟩ .plain rfl)
  have h2 := h1.step (.spawn _ ⟨[0], ⟨0⟩, ()⟩ ⟨0⟩ ⟨1⟩ (by decide))
  have h3 := h2.step (.deliver _ ⟨some ⟨0⟩, ⟨1⟩⟩ _ rfl)
  have h4 := h3.step (.take _ 0 ⟨⟨1⟩, [1], ()⟩ _ rfl)
  have h5 := h4.steps (steps_complete _ ⟨⟨1⟩, [1], ()⟩ (.panicked .opaquely) (by decide))
  have h6 := h5.steps (steps_endBody _ ⟨0⟩ 0 .well (by decide))
  have h7 := h6.step (.deliver _ ⟨some ⟨1⟩, ⟨0⟩⟩ _ rfl)
  exact h7.step (.deliver _ ⟨some ⟨1⟩, ⟨0⟩⟩ _ rfl)

/-- The failure of the panic, and no other, is the result of the scope. -/
theorem failures_of_panicAway : ∃ (i : Instance) (entries : List (PlaceId × Failure)),
    panicAway.world.instance? 0 = some i ∧ i.remoteId? = none ∧ 0 ∉ panicAway.left ∧
    panicAway.world.isReleasable 0 = true ∧
    (panicAway.world.leave 0).1 = .error (.multiple (entries.map (·.2))) ∧
    (entries.filter (·.1 = ⟨1⟩)).map (·.2) =
      [Failure.ofPanic .opaquely ⟨1⟩] ∧
    (entries.filter (·.1 = ⟨0⟩)).map (·.2) = [] := by
  have hi : panicAway.world.instance? 0 = some _ := rfl
  obtain ⟨entries, h1, h2⟩ := failures_of_released reachable_panicAway hi rfl (by decide) rfl
  rw [if_pos (by decide)] at h1
  exact ⟨_, entries, hi, rfl, by decide, rfl, h1, h2 ⟨1⟩, h2 ⟨0⟩⟩

end Pool

end Quiescence
