/-
# Programs run as nests do

Some workers, each with a stack, are a `Nest` in the same world: the bodies on
their stacks are those that run, and the scopes whose bodies run or which are
waited for are those that are open, each opened by the body below it. What has
ended and what was left, the history tells. Every part of a move is some steps
of that nest, as long as what actions register holds a task not ended, and
places are not taken away. So what is proved about nests and their pools holds
of every program.

* `nest`: the nest that some workers are, after a history.
* `Part.steps`: one part of a move; `Told.run`: a whole run.
* `Told.failures`, `Reached.gone`, `Reached.unbound`: what exits of scopes give, and
  what they leave behind.
-/
import Quiescence.Proofs.Moves
import Quiescence.Proofs.Nesting

namespace Quiescence

open World (Built)

namespace Pool

variable {β : Type} {q : Pool β}

/-- What a task is registered with is at a place that was made. -/
theorem Reachable.built (h : Reachable q) {s : Serial} {p : PlaceId} (hp : q.world.placeOf? s = some p) :
    q.world.Built p := by
  obtain ⟨g, hk⟩ := h.kept
  obtain ⟨i, hi, rfl⟩ := Option.map_eq_some_iff.mp hp
  exact hk.run.consistent.tidy.built s i hi

end Pool

/-! ### Who opened what -/

namespace Machine

/-- The body that opened a scope, with that scope's place on the stack just above `below`. -/
def Resume.opener? {α : Type} (below : List (Frame α)) : Resume → Option Body
  | .outcome => none
  | _ => below.head?.bind Frame.body?

/-- The scope whose body runs on a frame, or which is waited for, with the body that opened it. -/
def Frame.opening? {α : Type} (below : List (Frame α)) : Frame α → Option (Serial × Option Body)
  | .body _ (.scope s _ resume) _ => some (s, resume.opener? below)
  | .body _ _ _ => none
  | .await s resume => some (s, resume.opener? below)
  | .pump _ => none

def openings {α : Type} : List (Frame α) → List (Serial × Option Body)
  | [] => []
  | f :: below => (f.opening? below).toList ++ openings below

theorem Frame.opener_sublist {α : Type} (f : Frame α) (below : List (Frame α)) :
    ((f.opening? below).toList.filterMap Prod.snd).Sublist (below.head?.bind Frame.body?).toList := by
  have hresume : ∀ (s : Serial) (resume : Resume),
      ([(s, resume.opener? below)].filterMap Prod.snd).Sublist
        (below.head?.bind Frame.body?).toList := fun s resume => by
    cases resume with
    | outcome => exact List.nil_sublist _
    | _ => cases hb : below.head?.bind Frame.body? <;> simp [Resume.opener?, hb]
  cases f with
  | body rest owner previous =>
    cases owner with
    | scope s p resume => exact hresume s resume
    | _ => exact List.nil_sublist _
  | await s resume => exact hresume s resume
  | pump left => exact List.nil_sublist _

/-- The body on top of a stack waits for nothing: each scope was opened by the body just below it. -/
theorem openers_sublist {α : Type} (f : Frame α) (below : List (Frame α)) :
    ((openings (f :: below)).filterMap Prod.snd).Sublist (bodies below) := by
  induction below generalizing f with
  | nil => simpa [openings, bodies] using f.opener_sublist []
  | cons g below ih =>
    have hb : bodies (g :: below) = g.body?.toList ++ bodies below := by
      unfold bodies
      cases hg : g.body? <;> simp [hg]
    rw [openings, List.filterMap_append, hb]
    exact (f.opener_sublist (g :: below)).append (ih g)

/-- So it is on each of several others. -/
theorem openers_flatMap_sublist {α : Type} (others : List (List (Frame α))) :
    ((others.flatMap openings).filterMap Prod.snd).Sublist (others.flatMap bodies) := by
  induction others with
  | nil => exact .slnil
  | cons stack others ih =>
    rw [List.flatMap_cons, List.filterMap_append, List.flatMap_cons]
    refine .append ?_ ih
    cases stack with
    | nil => exact List.nil_sublist _
    | cons f below =>
      refine (openers_sublist f below).trans ?_
      unfold bodies
      cases hf : f.body? <;> simp [hf]

/-- An owner that runs as an activity is a body governed by its scope. -/
theorem Owner.body_of_activity {α : Type} (owner : Owner α) {a : Activity}
    (ha : owner.activity? = some a) :
    ∃ b, owner.body? = some b ∧ b.place = a.place ∧ a.scope ∈ b.finishes := by
  cases owner with
  | scope s p resume =>
    cases ha
    exact ⟨_, rfl, rfl, List.mem_singleton_self _⟩
  | task job =>
    obtain ⟨s, hs, rfl⟩ := Option.map_eq_some_iff.mp ha
    exact ⟨_, rfl, rfl, List.mem_of_mem_head? hs⟩
  | bare => cases ha

/-! ### The nest of a machine -/

variable {α : Type} {m m' : Machine Pairwise α} {others : List (List (Frame α))} {hist ds : List (Deed α)}

/-- The run as the workers see it. -/
def pool (m : Machine Pairwise α) (others : List (List (Frame α))) (hist : List (Deed α)) :
    Pool (Code α) where
  world := m.world
  running := (m.crew others : Multiset Body)
  closing := 0
  ended := hist.filterMap Deed.ended?
  left := (hist.filterMap Deed.left?).reverse

/-- The scopes that some worker has opened and not left. -/
def opened (m : Machine Pairwise α) (others : List (List (Frame α))) : List (Serial × Option Body) :=
  openings m.stack ++ others.flatMap openings

def nest (m : Machine Pairwise α) (others : List (List (Frame α))) (hist : List (Deed α)) :
    Nest (Code α) :=
  ⟨m.pool others hist, (m.opened others : Multiset (Serial × Option Body))⟩

theorem untold_pool (m : Machine Pairwise α) (others : List (List (Frame α))) (hist : List (Deed α)) :
    (m.pool others hist).untold = (m.untold others : Multiset Serial) := by
  unfold Pool.untold pool Machine.untold
  rw [add_zero, Multiset.coe_bind, Multiset.coe_add]

/-- The body on top goes on: each scope was opened by the body just below it. -/
theorem awake_nest (others : List (List (Frame α))) (hist : List (Deed α)) {f : Frame α}
    {below : List (Frame α)} {b : Body} (hstack : m.stack = f :: below) (hb : f.body? = some b) :
    b ∈ (m.nest others hist).awake := by
  have hle : (m.nest others hist).waiting ≤ (bodies below ++ others.flatMap bodies : List Body) := by
    unfold Nest.waiting nest opened
    rw [hstack, Multiset.filterMap_coe, List.filterMap_append]
    exact Multiset.coe_le.mpr ((openers_sublist f below).append (openers_flatMap_sublist others)).subperm
  have hrun : (m.nest others hist).pool.running =
      b ::ₘ (bodies below ++ others.flatMap bodies : List Body) := by
    unfold nest pool crew bodies
    rw [hstack, List.filterMap_cons_some hb, Multiset.cons_coe, List.cons_append]
  unfold Nest.awake
  rw [hrun, Multiset.cons_sub_of_le _ hle]
  exact Multiset.mem_cons_self ..

section Run

variable (hr : (m.nest others hist).Reachable)

include hr

omit hr in
theorem registers_pool {finishes : List Serial} {place target : PlaceId}
    (h : m.Registers others finishes place target) :
    ∀ s ∈ finishes, s ∈ (m.pool others hist).untold ∧
      (target = place → (m.pool others hist).world.placeOf? s = some place) := by
  intro s hs
  rw [untold_pool]
  exact h s hs

/-- The scope that governs the body on top is at its place, and holds it. -/
theorem held_active {a : Activity} (ha : m.Active a) :
    a.scope ∈ m.untold others ∧ m.world.placeOf? a.scope = some a.place := by
  obtain ⟨g, hk⟩ := hr.pool.kept
  obtain ⟨rest, owner, previous, below, hstack, hact⟩ := ha
  obtain ⟨b, hb, hbp, hbs⟩ := owner.body_of_activity hact
  have hmem : b ∈ m.crew others := by
    refine List.mem_append_left _ ?_
    rw [hstack]
    exact List.mem_filterMap.mpr ⟨_, List.mem_cons_self .., hb⟩
  have hp := hk.running b hmem a.scope hbs
  rw [hbp] at hp
  exact ⟨List.mem_append_left _ (List.mem_flatMap.mpr ⟨b, hmem, hbs⟩), hp⟩

theorem built_active {a : Activity} (ha : m.Active a) : m.world.Built a.place :=
  hr.pool.built (held_active hr ha).2

/-- What a task is spawned with registers it. -/
theorem registers_all {finishes : List Serial} {place target : PlaceId}
    (h : ∀ s ∈ finishes, m.Active ⟨place, s⟩ ∨ m.Registers others [s] place target) :
    m.Registers others finishes place target := by
  intro s hs
  rcases h s hs with hact | hreg
  · obtain ⟨hu, hp⟩ := held_active hr hact
    exact ⟨hu, fun _ => hp⟩
  · exact hreg s (List.mem_singleton_self _)

/-- The scope that governs the body on top is where the body is. -/
theorem place_active {a : Activity} (ha : m.Active a) {place : PlaceId}
    (hp : place = a.place ∨ m.world.placeOf? a.scope = some place) : place = a.place := by
  exact hp.elim id fun hx => Option.some.inj (hx.symm.trans (held_active hr ha).2)

omit hr in
/-- The body on top is governed by a scope, and goes on. -/
theorem awake_opener {a : Activity} (ha : m.Active a) {resume : Resume} {b : Body}
    (hb : resume.opener? m.stack = some b) : b ∈ (m.nest others hist).awake ∧ b.finishes ≠ [] := by
  obtain ⟨rest, owner, previous, below, hstack, hact⟩ := ha
  have hbody : owner.body? = some b := by
    rw [hstack] at hb
    cases resume with
    | outcome => cases hb
    | _ => exact hb
  obtain ⟨b', hb', -, hbs⟩ := owner.body_of_activity hact
  obtain rfl : b = b' := Option.some.inj (hbody.symm.trans hb')
  exact ⟨awake_nest others hist hstack hbody, List.ne_nil_of_mem hbs⟩

end Run

/-! ### The parts of a move -/

theorem endBody_eq {rest : List (Action α)} {owner : Owner α} {previous : Option Activity}
    {below : List (Frame α)} (hstack : m.stack = .body rest owner previous :: below) (ending : Ending) :
    m.endBody ending =
      ({ m with stack := below, current := previous } : Machine Pairwise α).close owner ending := by
  unfold Machine.endBody
  rw [hstack]

section Finish

variable {rest : List (Action α)} {previous : Option Activity} {below : List (Frame α)}

theorem pool_finish_scope {s : Serial} {p : PlaceId} {resume : Resume}
    (hstack : m.stack = .body rest (.scope s p resume) previous :: below) (ending : Ending) :
    (m.endBody ending).pool others (hist ++ [.ended (.scope s p resume) ending]) = { m.pool others hist with
      world := m.world.endBody s (ending.failure? p)
      running := (m.pool others hist).running.erase ⟨p, [s]⟩
      ended := (m.pool others hist).ended ++ [⟨⟨p, [s]⟩, ending⟩] } := by
  rw [endBody_eq hstack]
  simp [pool, crew, hstack, close, tellBody, push, Deed.ended?, Deed.left?, Owner.body?]

theorem pool_finish_task {job : Job (Code α)}
    (hstack : m.stack = .body rest (.task job) previous :: below) (ending : Ending) :
    (m.endBody ending).pool others (hist ++ [.ended (.task job) ending]) = { m.pool others hist with
      world := m.world.complete job (ending.failure? job.place)
      running := (m.pool others hist).running.erase ⟨job.place, job.finishes⟩
      ended := (m.pool others hist).ended ++ [⟨⟨job.place, job.finishes⟩, ending⟩] } := by
  rw [endBody_eq hstack]
  unfold close
  dsimp only
  split <;> simp [pool, crew, hstack, modifyEvaluation, Deed.ended?, Deed.left?, Owner.body?]

theorem pool_finish_bare (hstack : m.stack = .body rest .bare previous :: below) (ending : Ending) :
    (m.endBody ending).pool others (hist ++ [.ended .bare ending]) = m.pool others hist := by
  rw [endBody_eq hstack]
  simp [pool, crew, hstack, close, Deed.ended?, Deed.left?, Owner.body?]

theorem openings_finish {owner : Owner α} (hstack : m.stack = .body rest owner previous :: below)
    (ending : Ending) : openings (m.endBody ending).stack = openings m.stack := by
  rw [endBody_eq hstack, hstack]
  cases owner with
  | task job =>
    unfold close
    dsimp only
    split <;> rfl
  | _ => rfl

theorem steps_finish {owner : Owner α} (hstack : m.stack = .body rest owner previous :: below)
    (ending : Ending) :
    Nest.Steps (m.nest others hist) ((m.endBody ending).nest others (hist ++ [.ended owner ending])) := by
  have ho := openings_finish hstack ending
  unfold nest opened
  rw [ho]
  cases owner with
  | scope s p resume =>
    rw [pool_finish_scope hstack]
    exact Nest.steps_endBody (m.nest others hist) p s ending (awake_nest others hist hstack rfl)
  | task job =>
    rw [pool_finish_task hstack]
    exact Nest.steps_complete (m.nest others hist) job ending (awake_nest others hist hstack rfl)
  | bare => rw [pool_finish_bare hstack]

end Finish

theorem pool_congr {hist' : List (Deed α)} (hw : m'.world = m.world)
    (hb : bodies m'.stack = bodies m.stack)
    (he : hist'.filterMap Deed.ended? = hist.filterMap Deed.ended?)
    (hl : hist'.filterMap Deed.left? = hist.filterMap Deed.left?) :
    m'.pool others hist' = m.pool others hist := by
  simp only [pool, crew, hw, hb, he, hl]

theorem nest_congr {hist' : List (Deed α)} (hw : m'.world = m.world)
    (hb : bodies m'.stack = bodies m.stack) (ho : openings m'.stack = openings m.stack)
    (he : hist'.filterMap Deed.ended? = hist.filterMap Deed.ended?)
    (hl : hist'.filterMap Deed.left? = hist.filterMap Deed.left?) :
    m'.nest others hist' = m.nest others hist := by
  simp only [nest, opened, pool_congr hw hb he hl, ho]

theorem steps_restack (hw : m'.world = m.world) (hb : bodies m'.stack = bodies m.stack)
    (ho : openings m'.stack = openings m.stack) :
    Nest.Steps (m.nest others hist) (m'.nest others (hist ++ [])) := by
  rw [List.append_nil, nest_congr hw hb ho rfl rfl]

/-- Only the world changes. -/
theorem steps_work {w : World Pairwise (Code α)}
    (h : Pool.Work (m.pool others hist) { m.pool others hist with world := w }) :
    Nest.Steps (m.nest others hist)
      (({ m with world := w } : Machine Pairwise α).nest others (hist ++ [])) := by
  rw [List.append_nil]
  exact .single (.work _ _ h)

theorem steps_spawn {finishes : List Serial} {place target : PlaceId}
    (hr : m.Registers others finishes place target) (code : Code α) :
    Nest.Steps (m.nest others hist) (({ m with
      world := (m.world.spawnAt ⟨finishes, place, code⟩ place target).2 } :
        Machine Pairwise α).nest others (hist ++ [])) :=
  steps_work (.spawn (m.pool others hist) ⟨finishes, place, code⟩ place target (registers_pool hr))

theorem steps_openScope {place : PlaceId} (hp : m.world.Built place) (kind : ScopeKind)
    (body : List (Action α)) {resume : Resume}
    (ho : ∀ b, resume.opener? m.stack = some b → b ∈ (m.nest others hist).awake ∧ b.finishes ≠ []) :
    Nest.Steps (m.nest others hist) ((m.openScope place kind body resume).nest others (hist ++ [])) := by
  rw [List.append_nil]
  exact .single (.openScope (m.nest others hist) place kind (resume.opener? m.stack) hp ho)

theorem startJob_world {job : Job (Code α)} (hf : job.finishes ≠ []) :
    (m.startJob job).world = m.world := by
  unfold Machine.startJob
  split
  · exact absurd ‹_› hf
  · dsimp only
    split <;> rfl

theorem startJob_stack {job : Job (Code α)} (hf : job.finishes ≠ []) :
    (m.startJob job).stack = .body job.body.body (.task job) m.current :: m.stack := by
  unfold Machine.startJob
  split
  · exact absurd ‹_› hf
  · dsimp only
    split <;> rfl

theorem startJob_idle {job : Job (Code α)} (hf : job.finishes = []) :
    m.startJob job = { m with world := m.world.complete job none } := by
  unfold Machine.startJob
  rw [hf]

section Take

variable {k : ℕ} {job : Job (Code α)} {w : World Pairwise (Code α)}

theorem pool_begin (w : World Pairwise (Code α)) (hf : job.finishes ≠ []) :
    (({ m with world := w } : Machine Pairwise α).startJob job).pool others (hist ++ [.took job]) =
      { m.pool others hist with
        world := w
        running := ⟨job.place, job.finishes⟩ ::ₘ (m.pool others hist).running } := by
  simp [pool, crew, startJob_world hf, startJob_stack hf, Deed.ended?, Deed.left?, Owner.body?]

theorem pool_idle (w : World Pairwise (Code α)) (hf : job.finishes = []) :
    (({ m with world := w } : Machine Pairwise α).startJob job).pool others
        (hist ++ [.took job, .ended (.task job) .well]) =
      { m.pool others hist with
        world := w.complete job none
        ended := (m.pool others hist).ended ++ [⟨⟨job.place, job.finishes⟩, .well⟩] } := by
  rw [startJob_idle hf]
  simp [pool, crew, List.filterMap_cons, Deed.ended?, Deed.left?, Owner.body?]

/-- A worker takes up a task. -/
theorem steps_begin (hw : m.world.takeJob k = some (job, w)) (hf : job.finishes ≠ []) :
    Nest.Steps (m.nest others hist)
      ((({ m with world := w } : Machine Pairwise α).startJob job).nest others (hist ++ [.took job])) := by
  unfold nest opened
  rw [pool_begin w hf, startJob_stack hf]
  exact .single (.work _ _ (.take (m.pool others hist) k job w hw))

/-- One that no scope governs ends at once. -/
theorem steps_idle (hr : (m.nest others hist).Reachable) (hw : m.world.takeJob k = some (job, w))
    (hf : job.finishes = []) :
    Nest.Steps (m.nest others hist) ((({ m with world := w } : Machine Pairwise α).startJob job).nest others
      (hist ++ [.took job, .ended (.task job) .well])) := by
  have hstep : Nest.Step (m.nest others hist) _ := .work _ _ (.take (m.pool others hist) k job w hw)
  have hb : (⟨job.place, job.finishes⟩ : Body) ∈
      (⟨job.place, job.finishes⟩ ::ₘ (m.pool others hist).running) - (m.nest others hist).waiting := by
    have hle : (m.nest others hist).waiting ≤ (m.pool others hist).running := hr.proper.waiting
    rw [Multiset.cons_sub_of_le _ hle]
    exact Multiset.mem_cons_self ..
  have hend := Nest.steps_complete { m.nest others hist with pool := { m.pool others hist with
    world := w
    running := ⟨job.place, job.finishes⟩ ::ₘ (m.pool others hist).running } } job .well hb
  rw [Multiset.erase_cons_head] at hend
  unfold nest opened
  rw [pool_idle w hf, startJob_idle hf]
  exact .head hstep hend

end Take

/-- A scope that is waited for is open. -/
theorem mem_opened (others : List (List (Frame α))) {s : Serial} {resume : Resume}
    {below : List (Frame α)} (hstack : m.stack = .await s resume :: below) :
    (s, resume.opener? below) ∈ m.opened others := by
  unfold opened
  rw [hstack]
  exact List.mem_cons_self ..

/-- A scope that is waited for has its root, and has not been left. -/
theorem root_of_await (hr : (m.nest others hist).Reachable) {s : Serial} {resume : Resume}
    {below : List (Frame α)} (hstack : m.stack = .await s resume :: below) :
    ∃ i, m.world.instance? s = some i ∧ i.remoteId? = none ∧ s ∉ (m.pool others hist).left := by
  have hm : _ ∈ (m.nest others hist).opened := mem_opened others hstack
  obtain ⟨i, hi, hir⟩ := hr.proper.isRoot hm
  exact ⟨i, hi, hir, hr.proper.not_left hm⟩

theorem pool_leave (m : Machine Pairwise α) (s : Serial) (resume : Resume) {below : List (Frame α)}
    (hstack : m.stack = .await s resume :: below) :
    ({ m with world := (m.world.leave s).2, stack := below } : Machine Pairwise α).pool others
        (hist ++ [.left s]) =
      { m.pool others hist with world := (m.world.leave s).2, left := s :: (m.pool others hist).left } := by
  simp [pool, crew, hstack, Deed.ended?, Deed.left?]

theorem steps_leave (hr : (m.nest others hist).Reachable) {s : Serial} {resume : Resume}
    {below : List (Frame α)} (hstack : m.stack = .await s resume :: below)
    (hz : m.world.isReleasable s = true) :
    Nest.Steps (m.nest others hist) (({ m with world := (m.world.leave s).2, stack := below } :
      Machine Pairwise α).nest others (hist ++ [.left s])) := by
  obtain ⟨i, hi, hir, -⟩ := root_of_await hr hstack
  have hrel : i.isReleasable = true := by rwa [← World.isReleasable_eq hi]
  have hstep := Nest.Step.leave (m.nest others hist) s _ i (mem_opened others hstack) hi hir hrel
  have hopen : (m.nest others hist).opened.erase (s, resume.opener? below) =
      (openings below ++ others.flatMap openings : List (Serial × Option Body)) := by
    unfold nest opened
    rw [hstack]
    exact Multiset.erase_cons_head (s, resume.opener? below) (openings below ++ others.flatMap openings)
  rw [hopen] at hstep
  unfold nest
  rw [pool_leave m s resume hstack]
  exact .single hstep

section Evaluate

variable (m) (guarded : Bool) (place target : PlaceId) (body : List (Action α)) (answer : Answer α)

@[simp] theorem ended_deedsAt : (m.deedsAt guarded place target body answer).filterMap Deed.ended? =
    [⟨⟨place, [m.world.instances.length]⟩, .ofResult (m.callAt place target body answer).result⟩] := rfl

@[simp] theorem left_deedsAt :
    (m.deedsAt guarded place target body answer).filterMap Deed.left? = [] := rfl

theorem pool_evaluate :
    (m.openEvaluation guarded place target body answer).pool others
      (hist ++ m.deedsAt guarded place target body answer) =
      { m.pool others hist with
        world := (m.openEvaluation guarded place target body answer).world
        ended := (m.pool others hist).ended ++ [⟨⟨place, [m.world.instances.length]⟩,
          .ofResult (m.callAt place target body answer).result⟩] } := by
  simp only [pool, List.filterMap_append, ended_deedsAt, left_deedsAt, List.append_nil]
  rfl

end Evaluate

/-- The body that opens a scope for an evaluation does nothing but spawn the task. -/
theorem steps_evaluate (hr : (m.nest others hist).Reachable) {a : Activity} (ha : m.Active a)
    (guarded : Bool) (target : PlaceId) (body : List (Action α)) (answer : Answer α) :
    Nest.Steps (m.nest others hist) ((m.openEvaluation guarded a.place target body answer).nest others
      (hist ++ m.deedsAt guarded a.place target body answer)) := by
  obtain ⟨m₁, hm₁⟩ : ∃ m₁, m₁ = m.openScope a.place (m.defaultKind a.place) []
    (.evaluation m.evaluations.length target guarded) := ⟨_, rfl⟩
  obtain ⟨m₂, hm₂⟩ : ∃ m₂ : Machine Pairwise α, m₂ = { m₁ with
    world := (m₁.world.spawnAt ⟨[m.world.instances.length], a.place,
      ⟨body, some (m.evaluations.length, answer)⟩⟩ a.place target).2 } := ⟨_, rfl⟩
  have hopen : Nest.Steps (m.nest others hist) (m₁.nest others (hist ++ [])) := by
    rw [hm₁]
    exact steps_openScope (built_active hr ha) _ _ fun _ hb => awake_opener ha hb
  have hreg : m₁.Registers others [m.world.instances.length] a.place target := by
    intro s hs
    rw [List.mem_singleton.mp hs, hm₁]
    exact ⟨List.mem_append_left _ (List.mem_cons_self ..), fun _ =>
      World.placeOf?_eq ((World.instance?_addInstance _ _ _).trans (if_pos rfl))⟩
  have hspawn : Nest.Steps (m₁.nest others hist) (m₂.nest others (hist ++ [])) := by
    rw [hm₂]
    exact steps_spawn hreg _
  have hstack : m₂.stack = .body [] (.scope m.world.instances.length a.place
      (.evaluation m.evaluations.length target guarded)) m.current :: m.stack := by
    rw [hm₂, hm₁]
    rfl
  have hend : Nest.Steps (m₂.nest others hist) _ :=
    steps_finish hstack (.ofResult (m.callAt a.place target body answer).result)
  rw [List.append_nil] at hopen hspawn
  convert (hopen.trans hspawn).trans hend using 1
  rw [endBody_eq hstack, hm₂, hm₁]
  exact nest_congr rfl rfl rfl (by simp [Deed.ended?, Owner.body?]) (by simp [Deed.left?])

/-- A part of a move is some steps of the nest. -/
theorem Part.steps (hp : Part others m ds m') (hr : (m.nest others hist).Reachable) :
    Nest.Steps (m.nest others hist) (m'.nest others (hist ++ ds)) := by
  cases hp with
  | aside _ hw hs _ => exact steps_restack hw (by rw [hs]) (by rw [hs])
  | shorten a as owner previous below hstack =>
    exact steps_restack rfl (by simp [hstack]) (by rw [hstack]; cases owner <;> rfl)
  | pump left => exact steps_restack rfl rfl rfl
  | pumped left below hstack =>
    exact steps_restack rfl (by rw [hstack]; rfl) (by rw [hstack]; rfl)
  | kill p w hw => exact steps_work (.kill _ p w hw)
  | resize places hk => exact steps_work (.resize _ places hk)
  | spawn finishes place target body hs =>
    exact steps_spawn (registers_all hr hs) _
  | finish rest owner previous below ending hstack => exact steps_finish hstack ending
  | openScope a place kind body guarded hact hplace =>
    obtain rfl := place_active hr hact hplace
    exact steps_openScope (built_active hr hact) _ _ fun _ hb => awake_opener hact hb
  | evaluate a guarded target body answer hact => exact steps_evaluate hr hact guarded target body answer
  | start p hp =>
    unfold Program.start
    split
    · exact steps_restack rfl rfl rfl
    · rename_i place kind hsetting
      exact steps_openScope (hp place kind hsetting) _ _ nofun
  | deliver lane w hw => exact steps_work (.deliver _ lane w hw)
  | begin k job w hw hf => exact steps_begin hw hf
  | idle k job w hw hf => exact steps_idle hr hw hf
  | leave s resume below hstack hz => exact steps_leave hr hstack hz

/-- Another worker moves: the workers do what they did. -/
theorem coe_switch {β : Type} (f : List (Frame α) → List β) (stack stack' : List (Frame α))
    (before after : List (List (Frame α))) :
    (f stack' ++ (before ++ stack :: after).flatMap f : Multiset β) =
      (f stack ++ (before ++ stack' :: after).flatMap f : List β) := by
  simp only [List.flatMap_append, List.flatMap_cons, ← Multiset.coe_add]
  abel

theorem pool_switch (m : Machine Pairwise α) (before after : List (List (Frame α)))
    (stack : List (Frame α)) (hist : List (Deed α)) :
    (m.turnTo stack).pool (before ++ m.stack :: after) hist = m.pool (before ++ stack :: after) hist := by
  unfold pool crew turnTo
  simp only [coe_switch bodies m.stack stack]

theorem nest_switch (m : Machine Pairwise α) (before after : List (List (Frame α)))
    (stack : List (Frame α)) (hist : List (Deed α)) :
    (m.turnTo stack).nest (before ++ m.stack :: after) hist = m.nest (before ++ stack :: after) hist := by
  unfold nest opened
  rw [pool_switch]
  unfold turnTo
  simp only [coe_switch openings m.stack stack]

/-! ### Runs -/

/-- The nest of some workers runs. -/
theorem Told.run (h : Told others m hist) : (m.nest others hist).Reachable := by
  induction h with
  | idle places kind spins schedule hp => exact .start places kind spins hp
  | part _ hp ih => exact ih.steps (hp.steps ih)
  | hire _ ih => exact ih
  | switch stack _ ih =>
    rw [nest_switch]
    exact ih

section Exits

variable {s : Serial} {resume : Resume} {below : List (Frame α)}

/-- A scope that a program exits gives the failures of the bodies that it governed. -/
theorem Told.failures (h : Told others m hist) (hstack : m.stack = .await s resume :: below)
    (hz : m.world.isReleasable s = true) :
    ∃ (home : PlaceId) (entries : List (PlaceId × Failure)),
      m.world.placeOf? s = some home ∧
      (m.world.leave s).1 = (if ((m.pool others hist).governed s).any Ended.failed then
        .error (.multiple (entries.map (·.2))) else .ok ()) ∧
      ∀ p, (entries.filter (·.1 = p)).map (·.2) =
        (((m.pool others hist).governed s).filter (·.place = p)).filterMap (Ended.received? home) := by
  obtain ⟨g, hk⟩ := h.run.pool.kept
  obtain ⟨i, hi, hr, hl⟩ := root_of_await h.run hstack
  obtain ⟨entries, hleave, hparts⟩ := hk.failures hi hr hl hz
  exact ⟨i.place, entries, World.placeOf?_eq hi, hleave, hparts⟩

/-- Nothing is left of a scope that a program exits. -/
theorem Reached.gone (h : Reached others m) (hstack : m.stack = .await s resume :: below)
    (hz : m.world.isReleasable s = true) : World.Gone (m.world.leave s).2 s := by
  obtain ⟨hist, ht⟩ := h.told
  have hleft := (ht.part (.leave m s resume below hstack hz)).run
  refine hleft.gone (List.mem_reverse.mpr (List.mem_filterMap.mpr ⟨.left s, ?_, rfl⟩))
  exact List.mem_append_right _ (List.mem_singleton_self _)

/-- Where programs have exited all scopes that no body opened, no place binds anything. -/
theorem Reached.unbound (h : Reached others m) (hnone : ∀ r, (r, none) ∉ m.opened others) {p : PlaceId}
    {site : Site} (hp : m.world.site? p = some site) : site.identities.bindings = [] := by
  obtain ⟨hist, ht⟩ := h.told
  exact ht.run.unbound hnone hp

end Exits

end Machine

end Quiescence
