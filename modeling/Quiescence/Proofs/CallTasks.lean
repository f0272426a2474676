/-
# The tasks of calls

The task that a call hands over is on its way, or in a queue, until a worker
takes it up. It is so once and no more, since the call hands it over once: the
tasks for a slot that are loose and those that were taken up are together what
the call handed over. On its way the task has a token of the call's scope, and
when it has come to its place it is registered with an instance of that scope.
So the scope is not released before the task has ended, with its value in the
slot.

* `Accounted`: where the tasks of calls are; `Accounted.part`: each part of a move
  keeps it.
* `Valued`: the values of the tasks that ended well are there.
* `Told.evaluated`: both hold along every run.
-/
import Quiescence.Proofs.Calls
import Quiescence.Proofs.Transit

namespace Quiescence

namespace Pool

variable {β : Type} {m m' : Pool β} {g : Ledger β}

/-- Identities that were given are kept. -/
theorem Step.idOf? (h : Step m m') (hk : Kept m g) {s : Serial} {id : GlobalId}
    (hs : m.world.idOf? s = some id) : m'.world.idOf? s = some id := by
  have hwork : Work m m' → m'.world.idOf? s = some id := fun hw => (hw.keeps hk).idOf? hs
  cases h with
  | openScope p kind hp => exact (World.grows_openScope m.world p kind).idOf? hs
  | spawn task p target hr => exact hwork (.spawn m task p target hr)
  | take n job w ht => exact hwork (.take m n job w ht)
  | finish b ending hb => exact (hk.keeps_finish hb ending).idOf? hs
  | tell t ht => exact hwork (.tell m t ht)
  | deliver lane w hw => exact hwork (.deliver m lane w hw)
  | leave r i hi hr hz => exact (World.rests_leave hi).toKeeps.idOf? hs
  | kill p w hw => exact hwork (.kill m p w hw)
  | resize known hk' => exact hwork (.resize m known hk')
  | elsewhere w ha hw => exact hwork (.elsewhere m w ha hw)

end Pool

namespace Nest

variable {β : Type} {n n' : Nest β}

theorem Reachable.idOf? (hr : Reachable n) (hs : Steps n n') {s : Serial} {id : GlobalId}
    (hid : n.pool.world.idOf? s = some id) : n'.pool.world.idOf? s = some id := by
  induction hs with
  | refl => exact hid
  | tail hs hstep ih =>
    obtain ⟨g, hk⟩ := (hr.steps hs).pool.kept
    exact hstep.pool.idOf? hk ih

end Nest

namespace Machine

open World (HandOff handOffs Offered SameTasks Tokened unlessRefused)

variable {α : Type} {m m' : Machine Pairwise α} {others : List (List (Frame α))} {hist ds : List (Deed α)}
  {g g' : Ledger (Code α)}

/-! ### The tasks of calls -/

/-- The task that a call hands over, with its place. -/
def Call.handed (c : Call α) (slot : ℕ) : Multiset (PlaceId × Code α) :=
  unlessRefused c.result (c.target, c.code slot)

/-- One more call, whose slot is the next. -/
theorem handed_concat (cs : List (Call α)) (c : Call α) (k : ℕ) :
    (cs ++ [c])[k]?.elim 0 (·.handed k) =
      (c.handed cs.length).filter (slot? ·.2 = some k) + cs[k]?.elim 0 (·.handed k) := by
  have hfilter : (c.handed cs.length).filter (slot? ·.2 = some k) =
      if k = cs.length then c.handed k else 0 := by
    split_ifs with hk
    · rw [hk]
      exact Multiset.filter_eq_self.mpr fun x hx => World.mem_unlessRefused hx ▸ rfl
    · refine Multiset.filter_eq_nil.mpr fun x hx hs => hk ?_
      rw [World.mem_unlessRefused hx] at hs
      exact (Option.some.inj hs).symm
  rw [hfilter]
  rcases lt_trichotomy k cs.length with hk | rfl | hk
  · rw [List.getElem?_append_left hk, if_neg hk.ne, zero_add]
  · rw [List.getElem?_concat_length, if_pos rfl, List.getElem?_eq_none le_rfl]
    exact (add_zero _).symm
  · rw [List.getElem?_eq_none (by rw [List.length_append]; exact hk), List.getElem?_eq_none hk.le,
      if_neg hk.ne', zero_add]

/-- A task on its way that is evaluated for a call has a token of the call's scope, and no other. -/
def Marked (w : World Pairwise (Code α)) (cs : List (Call α)) (h : HandOff (Code α)) : Prop :=
  ∀ k, slot? h.body = some k → ∃ c, cs[k]? = some c ∧ Tokened w [c.scope] h.tokens

/-- One that has come to its place is registered with an instance of the scope, and with no other. -/
def Bound (w : World Pairwise (Code α)) (cs : List (Call α)) (job : Job (Code α)) : Prop :=
  ∀ k, slot? job.body = some k → ∃ c, cs[k]? = some c ∧ List.Forall₂ w.Akin [c.scope] job.finishes

section Marks

variable {w w' : World Pairwise (Code α)} {cs : List (Call α)}
  (hids : ∀ s id, w.idOf? s = some id → w'.idOf? s = some id)

include hids

theorem Marked.mono {h : HandOff (Code α)} (hm : Marked w cs h) (cs' : List (Call α)) :
    Marked w' (cs ++ cs') h := fun k hk => by
  obtain ⟨c, hc, ht⟩ := hm k hk
  refine ⟨c, ?_, ht.imp fun s t hs => hids s t.id hs⟩
  rw [List.getElem?_append_left (List.getElem?_eq_some_iff.mp hc).1, hc]

theorem Bound.mono {job : Job (Code α)} (hb : Bound w cs job) (cs' : List (Call α)) :
    Bound w' (cs ++ cs') job := fun k hk => by
  obtain ⟨c, hc, ha⟩ := hb k hk
  refine ⟨c, ?_, ha.imp fun r s hs => hs.of_ids hids⟩
  rw [List.getElem?_append_left (List.getElem?_eq_some_iff.mp hc).1, hc]

end Marks

/-- The ledger of the run accounts for each task that is evaluated for a call: it is loose, or it was
taken up, exactly once if the call handed it over. -/
structure Accounted (m : Machine Pairwise α) (others : List (List (Frame α))) (hist : List (Deed α))
    (g : Ledger (Code α)) : Prop where
  kept : Pool.Kept (m.pool others hist) g
  exact : ∀ k, (m.world.loose (handOffs g.astray) +
      ((taken hist).map fun job => (job.place, job.body) : List _)).filter (slot? ·.2 = some k) =
    (calls hist)[k]?.elim 0 (·.handed k)
  sent : ∀ h ∈ handOffs m.world.net.packets ++ handOffs g.astray, Marked m.world (calls hist) h
  held : ∀ job ∈ m.world.jobs ++ taken hist, Bound m.world (calls hist) job

namespace Accounted

/-- No call is made, and each task was there or is new and for no call. -/
theorem quiet (h : Accounted m others hist g) (hk : Pool.Kept (m'.pool others (hist ++ ds)) g')
    (hids : ∀ s id, m.world.idOf? s = some id → m'.world.idOf? s = some id) (hc : calls ds = [])
    (hloose : ∀ k, (m'.world.loose (handOffs g'.astray) +
        ((taken (hist ++ ds)).map fun job => (job.place, job.body) : List _)).filter
          (slot? ·.2 = some k) =
      (m.world.loose (handOffs g.astray) +
        ((taken hist).map fun job => (job.place, job.body) : List _)).filter (slot? ·.2 = some k))
    (hsent : ∀ x ∈ handOffs m'.world.net.packets ++ handOffs g'.astray,
      x ∈ handOffs m.world.net.packets ++ handOffs g.astray ∨ Marked m'.world (calls hist) x)
    (hheld : ∀ job ∈ m'.world.jobs ++ taken (hist ++ ds),
      job ∈ m.world.jobs ++ taken hist ∨ Bound m'.world (calls hist) job) :
    Accounted m' others (hist ++ ds) g' := by
  have hcalls : calls (hist ++ ds) = calls hist ++ [] := by rw [calls_append, hc]
  refine ⟨hk, fun k => ?_, fun x hx => ?_, fun job hj => ?_⟩
  · rw [hloose, hcalls, List.append_nil]
    exact h.exact k
  · rw [hcalls]
    exact (hsent x hx).elim (fun hm => (h.sent x hm).mono hids []) fun hm => hm.mono (fun _ _ => id) []
  · rw [hcalls]
    exact (hheld job hj).elim (fun hm => (h.held job hm).mono hids []) fun hm =>
      hm.mono (fun _ _ => id) []

/-- The tasks are the same. -/
theorem same (h : Accounted m others hist g)
    (hk : ∃ g', Pool.Kept (m'.pool others (hist ++ ds)) g' ∧ g'.astray = g.astray)
    (hids : ∀ s id, m.world.idOf? s = some id → m'.world.idOf? s = some id)
    (hs : SameTasks m.world m'.world) (hc : calls ds = []) (ht : taken ds = []) :
    ∃ g', Accounted m' others (hist ++ ds) g' := by
  obtain ⟨g', hk', ha⟩ := hk
  have htaken : taken (hist ++ ds) = taken hist := by rw [taken_append, ht, List.append_nil]
  refine ⟨g', h.quiet hk' hids hc (fun k => ?_) (fun x hx => .inl ?_) fun job hj => .inl ?_⟩
  · rw [ha, hs.loose, htaken]
  · rwa [ha, hs.sent] at hx
  · rwa [hs.queued, htaken] at hj

/-- Nothing that the pool sees changes. -/
theorem restack (h : Accounted m others hist g) (hw : m'.world = m.world)
    (hb : bodies m'.stack = bodies m.stack) : ∃ g', Accounted m' others (hist ++ []) g' := by
  refine h.same ⟨g, ?_, rfl⟩ (fun s id hs => by rwa [hw]) (hw ▸ .refl m.world) rfl rfl
  rw [List.append_nil, pool_congr hw hb rfl rfl]
  exact h.kept

theorem openScope (h : Accounted m others hist g) {place : PlaceId} (hp : m.world.Built place)
    (kind : ScopeKind) (body : List (Action α)) (resume : Resume)
    (hids : ∀ s id, m.world.idOf? s = some id →
      (m.openScope place kind body resume).world.idOf? s = some id) :
    ∃ g', Accounted (m.openScope place kind body resume) others (hist ++ []) g' := by
  refine h.same ⟨m.world.afterOpen g place, ?_, rfl⟩ hids ⟨rfl, rfl⟩ rfl rfl
  rw [List.append_nil]
  exact h.kept.openScope hp kind

/-- A task is spawned for no call. -/
theorem spawn (h : Accounted m others hist g) {finishes : List Serial} {place target : PlaceId}
    (hs : m.Registers others finishes place target) (body : List (Action α))
    (hids : ∀ s id, m.world.idOf? s = some id →
      (m.world.spawnAt ⟨finishes, place, ⟨body, none⟩⟩ place target).2.idOf? s = some id) :
    ∃ g', Accounted { m with
      world := (m.world.spawnAt ⟨finishes, place, ⟨body, none⟩⟩ place target).2 }
      others (hist ++ []) g' := by
  have hc : m.world.Consistent g 0 [] := h.kept.run.consistent
  have ho := World.offered_spawnAt hc ⟨finishes, place, ⟨body, none⟩⟩ place target
  obtain ⟨g', hk, ha⟩ := h.kept.spawnAt ⟨finishes, place, ⟨body, none⟩⟩ (registers_pool hs)
  refine ⟨g', h.quiet ?_ hids rfl (fun k => ?_) (fun x hx => ?_) fun job hj => ?_⟩
  · rw [List.append_nil]
    exact hk
  · have hnone : (unlessRefused (m.world.spawnAt ⟨finishes, place, ⟨body, none⟩⟩ place target).1
        (target, ⟨body, none⟩)).filter (slot? ·.2 = some k) = (0 : Multiset (PlaceId × Code α)) := by
      refine Multiset.filter_eq_nil.mpr fun x hx hs => ?_
      rw [World.mem_unlessRefused hx] at hs
      cases hs
    rw [ha, ho.loose, List.append_nil, add_assoc, Multiset.filter_add, hnone, zero_add]
  · rw [ha] at hx
    rcases List.mem_append.mp hx with hx | hx
    · refine (ho.of_sent hx).imp (List.mem_append_left _) fun hx k hk => ?_
      rw [hx.1] at hk
      cases hk
    · exact .inl (List.mem_append_right _ hx)
  · rw [List.append_nil] at hj
    rcases List.mem_append.mp hj with hj | hj
    · refine (ho.of_queued hj).imp (List.mem_append_left _) fun hj k hk => ?_
      rw [hj.1] at hk
      cases hk
    · exact .inl (List.mem_append_right _ hj)

/-- A message is delivered. A task that arrives is registered with what its tokens name. -/
theorem deliver (h : Accounted m others hist g) {lane : Lane} {w : World Pairwise (Code α)}
    (hw : m.world.deliver lane = some w)
    (hids : ∀ s id, m.world.idOf? s = some id → w.idOf? s = some id) :
    ∃ g', Accounted { m with world := w } others (hist ++ []) g' := by
  have hc : m.world.Consistent g 0 [] := h.kept.run.consistent
  obtain ⟨new, hh⟩ := World.hands_deliver hc h.kept.run.faithful hw
  have hf := hc.fetched hw
  refine ⟨m.world.afterDelivery g lane, h.quiet ?_ hids rfl (fun k => ?_) (fun x hx => ?_)
    fun job hj => ?_⟩
  · rw [List.append_nil]
    exact h.kept.hands (.deliver _ _ lane w hw) hh
  · rw [World.loose_fetched hf, List.append_nil]
  · exact .inl (hf.of_sent hx)
  · rw [List.append_nil] at hj
    rcases List.mem_append.mp hj with hj | hj
    · refine (hf.of_queued hj).imp (fun hj => List.mem_append_left _ hj) fun hj k hk => ?_
      obtain ⟨x, hx, hbody, htok⟩ := hj
      rw [hbody] at hk
      obtain ⟨c, hcall, ht⟩ := h.sent x (List.mem_append_left _ hx) k hk
      exact ⟨c, hcall, World.Tokened.akin (ht.imp fun s t hs => hids s t.id hs) htok⟩
    · exact .inl (List.mem_append_right _ hj)

/-- A worker takes up a task. -/
theorem take (h : Accounted m others hist g) {n : ℕ} {job : Job (Code α)} {w : World Pairwise (Code α)}
    (hw : m.world.takeJob n = some (job, w))
    (hk : ∃ g', Pool.Kept (m'.pool others (hist ++ ds)) g' ∧ g'.astray = g.astray)
    (hids : ∀ s id, m.world.idOf? s = some id → m'.world.idOf? s = some id)
    (hs : SameTasks w m'.world) (hc : calls ds = []) (ht : taken ds = [job]) :
    ∃ g', Accounted m' others (hist ++ ds) g' := by
  obtain ⟨g', hk', ha⟩ := hk
  have hloose := World.loose_takeJob hw (handOffs g.astray)
  obtain ⟨hjob, rfl⟩ := World.takeJob_eq hw
  refine ⟨g', h.quiet hk' hids hc (fun k => congrArg _ ?_) (fun x hx => .inl ?_) fun x hx => .inl ?_⟩
  · rw [ha, hs.loose, hloose, taken_append, ht, List.map_append, ← Multiset.coe_add, List.map_cons,
      List.map_nil, Multiset.coe_singleton, ← Multiset.singleton_add]
    abel
  · rwa [ha, hs.sent] at hx
  · rw [hs.queued, taken_append, ht] at hx
    simp only [List.mem_append, List.mem_singleton] at hx ⊢
    rcases hx with hx | hx | rfl
    · exact .inl (List.mem_of_mem_eraseIdx hx)
    · exact .inr hx
    · exact .inl (List.mem_of_getElem? hjob)

/-- The body on top ends. -/
theorem finish (h : Accounted m others hist g) {rest : List (Action α)} {owner : Owner α}
    {previous : Option Activity} {below : List (Frame α)}
    (hstack : m.stack = .body rest owner previous :: below) (ending : Ending)
    (hids : ∀ s id, m.world.idOf? s = some id → (m.endBody ending).world.idOf? s = some id) :
    ∃ g', Accounted (m.endBody ending) others (hist ++ [.ended owner ending]) g' := by
  have hmem : ∀ b, owner.body? = some b → b ∈ (m.pool others hist).running := fun b hb =>
    List.mem_append_left _
      (List.mem_filterMap.mpr ⟨.body rest owner previous, hstack ▸ List.mem_cons_self .., hb⟩)
  cases owner with
  | scope s p resume =>
    refine h.same ?_ hids ?_ rfl rfl
    · rw [pool_finish_scope hstack]
      exact h.kept.endBody p s ending (hmem _ rfl)
    · rw [endBody_eq hstack]
      exact World.sameTasks_endBody m.world s _
  | task job =>
    have hpool : (m.endBody ending).pool others (hist ++ [.ended (.task job) ending]) = _ :=
      pool_finish_task hstack ending
    refine h.same ?_ hids ?_ rfl rfl
    · rw [hpool]
      exact h.kept.complete job ending (hmem _ rfl)
    · rw [show (m.endBody ending).world = _ from congrArg Pool.world hpool]
      exact World.sameTasks_complete m.world job _
  | bare =>
    have hpool : (m.endBody ending).pool others (hist ++ [.ended .bare ending]) = m.pool others hist :=
      pool_finish_bare hstack ending
    refine h.same ⟨g, hpool ▸ h.kept, rfl⟩ hids ?_ rfl rfl
    rw [show (m.endBody ending).world = _ from congrArg Pool.world hpool]
    exact .refl m.world

/-- The scope of a call is opened, its task is handed over, and its body ends. -/
theorem kept_evaluate (hk : Pool.Kept (m.pool others hist) g) (hr : (m.nest others hist).Reachable)
    {a : Activity} (ha : m.Active a) (guarded : Bool) (target : PlaceId) (body : List (Action α))
    (answer : Answer α) :
    ∃ g', Pool.Kept ((m.openEvaluation guarded a.place target body answer).pool others
      (hist ++ m.deedsAt guarded a.place target body answer)) g' ∧ g'.astray = g.astray := by
  have h1 := hk.openScope (built_active hr ha) (m.defaultKind a.place)
  have hp : (m.world.openScope a.place (m.defaultKind a.place)).2.placeOf? m.world.instances.length =
      some a.place :=
    World.placeOf?_eq ((World.instance?_addInstance _ _ _).trans (if_pos rfl))
  obtain ⟨g₂, h2, ha2⟩ := h1.spawnAt
    ⟨[m.world.instances.length], a.place, ⟨body, some (m.evaluations.length, answer)⟩⟩
    (fun s hs => show _ ∧ (target = a.place → _) by
      rw [List.mem_singleton.mp hs, ← h1.held]
      exact ⟨Multiset.mem_cons_self .., fun _ => hp⟩)
  obtain ⟨g₃, h3, ha3⟩ := h2.endBody a.place m.world.instances.length
    (.ofResult (m.callAt a.place target body answer).result)
    (show _ ∈ _ ::ₘ (m.pool others hist).running from Multiset.mem_cons_self ..)
  refine ⟨g₃, ?_, ha3.trans ha2⟩
  have h4 : Pool.Kept { m.pool others hist with
      world := (m.openEvaluation guarded a.place target body answer).world
      running := (⟨a.place, [m.world.instances.length]⟩ ::ₘ (m.pool others hist).running).erase
        ⟨a.place, [m.world.instances.length]⟩
      ended := (m.pool others hist).ended ++ [⟨⟨a.place, [m.world.instances.length]⟩,
        .ofResult (m.callAt a.place target body answer).result⟩] } g₃ := h3
  rw [Multiset.erase_cons_head] at h4
  rw [pool_evaluate]
  exact h4

/-- The task of a call is offered to the target. -/
theorem offered_evaluate (hk : Pool.Kept (m.pool others hist) g) (hr : (m.nest others hist).Reachable)
    {a : Activity} (ha : m.Active a) (guarded : Bool) (target : PlaceId) (body : List (Action α))
    (answer : Answer α) :
    Offered m.world (m.openEvaluation guarded a.place target body answer).world
      ⟨[m.world.instances.length], a.place, ⟨body, some (m.evaluations.length, answer)⟩⟩ target
      (m.callAt a.place target body answer).result := by
  have h1 := hk.openScope (built_active hr ha) (m.defaultKind a.place)
  have hc : (m.world.openScope a.place (m.defaultKind a.place)).2.Consistent _ 0 [] := h1.run.consistent
  have hs : SameTasks m.world (m.world.openScope a.place (m.defaultKind a.place)).2 := ⟨rfl, rfl⟩
  exact ((World.offered_spawnAt hc _ a.place target).after hs).andThen (World.sameTasks_endBody _ _ _)
    (World.lasts_endBody _ _ _)

/-- A call is made. -/
theorem evaluate (h : Accounted m others hist g) (hf : Framed m others hist)
    (hr : (m.nest others hist).Reachable) {a : Activity} (ha : m.Active a) (guarded : Bool)
    (target : PlaceId) (body : List (Action α)) (answer : Answer α)
    (hids : ∀ s id, m.world.idOf? s = some id →
      (m.openEvaluation guarded a.place target body answer).world.idOf? s = some id) :
    ∃ g', Accounted (m.openEvaluation guarded a.place target body answer) others
      (hist ++ m.deedsAt guarded a.place target body answer) g' := by
  obtain ⟨g', hk, hastray⟩ := kept_evaluate h.kept hr ha guarded target body answer
  have ho := offered_evaluate h.kept hr ha guarded target body answer
  obtain ⟨c, hc⟩ : ∃ c, c = m.callAt a.place target body answer := ⟨_, rfl⟩
  have hcalls : calls (hist ++ m.deedsAt guarded a.place target body answer) = calls hist ++ [c] := by
    rw [calls_append, calls_deedsAt, hc]
  have htaken : taken (hist ++ m.deedsAt guarded a.place target body answer) = taken hist := by
    rw [taken_append, taken_deedsAt, List.append_nil]
  have hat : (calls hist ++ [c])[m.evaluations.length]? = some c := by
    rw [hf.slots]
    exact List.getElem?_concat_length
  have ho : Offered m.world (m.openEvaluation guarded a.place target body answer).world
      ⟨[c.scope], a.place, c.code m.evaluations.length⟩ c.target c.result := by
    rw [hc]
    exact ho
  refine ⟨g', hk, fun k => ?_, fun x hx => ?_, fun job hj => ?_⟩
  · rw [hcalls, htaken, handed_concat, ← h.exact k, hastray, ho.loose, add_assoc, Multiset.filter_add,
      hf.slots]
    rfl
  · rw [hastray] at hx
    rw [hcalls]
    rcases List.mem_append.mp hx with hx | hx
    · rcases ho.of_sent hx with hx | ⟨hbody, htok⟩
      · exact (h.sent x (List.mem_append_left _ hx)).mono hids [c]
      · intro k hk
        rw [hbody] at hk
        cases hk
        exact ⟨c, hat, htok⟩
    · exact (h.sent x (List.mem_append_right _ hx)).mono hids [c]
  · rw [htaken] at hj
    rw [hcalls]
    rcases List.mem_append.mp hj with hj | hj
    · rcases ho.of_queued hj with hj | ⟨hbody, hfin⟩
      · exact (h.held job (List.mem_append_left _ hj)).mono hids [c]
      · intro k hk
        rw [hbody] at hk
        cases hk
        rw [hfin]
        exact ⟨c, hat, .cons (.refl _ _) .nil⟩
    · exact (h.held job (List.mem_append_right _ hj)).mono hids [c]

/-- What a part of a move leaves. -/
theorem part (h : Accounted m others hist g) (hf : Framed m others hist)
    (hr : (m.nest others hist).Reachable) (hp : Part others m ds m') :
    ∃ g', Accounted m' others (hist ++ ds) g' := by
  have hids : ∀ s id, m.world.idOf? s = some id → m'.world.idOf? s = some id := fun s id hs =>
    hr.idOf? (hp.steps hr) hs
  cases hp with
  | aside _ hw hs he => exact h.restack hw (by rw [hs])
  | shorten a as owner previous below hstack => exact h.restack rfl (by simp [hstack])
  | pump left => exact h.restack rfl rfl
  | pumped left below hstack => exact h.restack rfl (by simp [hstack])
  | kill p w hw =>
    refine h.same ⟨g, ?_, rfl⟩ hids ?_ rfl rfl
    · rw [List.append_nil]
      exact h.kept.kill hw
    · cases hw
      exact ⟨rfl, rfl⟩
  | resize places hk =>
    refine h.same ⟨g, ?_, rfl⟩ hids ⟨rfl, rfl⟩ rfl rfl
    rw [List.append_nil]
    exact h.kept.resize hk
  | spawn finishes place target body hs => exact h.spawn (registers_all hr hs) body hids
  | finish rest owner previous below ending hstack => exact h.finish hstack ending hids
  | openScope a place kind body guarded hact hplace =>
    obtain rfl := place_active hr hact hplace
    exact h.openScope (built_active hr hact) kind body _ hids
  | evaluate a guarded target body answer hact =>
    exact h.evaluate hf hr hact guarded target body answer hids
  | start p hp =>
    unfold Program.start at hids ⊢
    split at hids
    · exact h.restack rfl rfl
    · exact h.openScope (hp _ _ ‹_›) _ _ _ hids
  | deliver lane w hw => exact h.deliver hw hids
  | begin k job w hw hf =>
    refine h.take hw ⟨g, ?_, rfl⟩ hids ?_ rfl rfl
    · rw [pool_begin w hf]
      exact h.kept.take hw
    · rw [startJob_world hf]
      exact .refl w
  | idle k job w hw hf =>
    refine h.take hw ?_ hids ?_ rfl rfl
    · obtain ⟨g', hk, ha⟩ := (h.kept.take hw).complete job .well
        (show _ ∈ _ ::ₘ (m.pool others hist).running from Multiset.mem_cons_self ..)
      rw [pool_idle w hf]
      refine ⟨g', ?_, ha⟩
      dsimp only at hk
      rw [Multiset.erase_cons_head] at hk
      exact hk
    · rw [startJob_idle hf]
      exact World.sameTasks_complete w job none
  | leave s resume below hstack hz =>
    obtain ⟨i, hi, hir, -⟩ := root_of_await hr hstack
    refine h.same ⟨{ g with left := s :: g.left }, ?_, rfl⟩ hids
      (World.still_leave m.world s).sameTasks rfl rfl
    rw [pool_leave m s resume hstack]
    exact h.kept.leave hi hir (by rwa [← World.isReleasable_eq hi])

/-- A task taken up for a call is the one that the call handed over. -/
theorem taken_eq (h : Accounted m others hist g) {job : Job (Code α)} (hj : job ∈ taken hist) {k : ℕ}
    (hk : slot? job.body = some k) :
    ∃ c, (calls hist)[k]? = some c ∧ job.place = c.target ∧ job.body = c.code k := by
  have hm : (job.place, job.body) ∈ (m.world.loose (handOffs g.astray) +
      ((taken hist).map fun job => (job.place, job.body) : List _)).filter (slot? ·.2 = some k) :=
    Multiset.mem_filter.mpr ⟨Multiset.mem_add.mpr (.inr (List.mem_map.mpr ⟨job, hj, rfl⟩)), hk⟩
  rw [h.exact k] at hm
  cases hc : (calls hist)[k]? with
  | none =>
    rw [hc] at hm
    exact absurd hm (Multiset.notMem_zero _)
  | some c =>
    rw [hc] at hm
    have heq := World.mem_unlessRefused hm
    exact ⟨c, rfl, congrArg Prod.fst heq, congrArg Prod.snd heq⟩

end Accounted

/-! ### The values of calls -/

/-- The value that an evaluation has given. -/
def value? (m : Machine Pairwise α) (k : ℕ) : Option (Value α) := m.evaluations[k]?.bind (·.value)

theorem value?_startJob (m : Machine Pairwise α) (job : Job (Code α)) (k : ℕ) :
    (m.startJob job).value? k = m.value? k := by
  unfold Machine.startJob
  split
  · rfl
  · cases job.body.evaluates with
    | none => rfl
    | some e =>
      show ((m.evaluations.modify e.1 fun e => { e with started := true })[k]?).bind _ = _
      rw [List.getElem?_modify]
      unfold value?
      cases m.evaluations[k]? with
      | none => rfl
      | some e =>
        dsimp only [Option.map_eq_map, Option.map_some, Option.bind_some]
        split_ifs <;> rfl

section Close

variable {rest : List (Action α)} {owner : Owner α} {previous : Option Activity} {below : List (Frame α)}

theorem value?_endBody_other (hstack : m.stack = .body rest owner previous :: below) {ending : Ending}
    {k : ℕ} (hk : ∀ job, owner = .task job → ending = .well → slot? job.body ≠ some k) :
    (m.endBody ending).value? k = m.value? k := by
  rw [endBody_eq hstack]
  cases owner with
  | task job =>
    unfold close
    dsimp only
    split
    · rename_i slot answer hslot
      have hne : slot ≠ k := fun hx => hk job rfl rfl (by rw [slot?, hslot, hx]; rfl)
      show ((m.evaluations.modify slot _)[k]?).bind _ = _
      rw [List.getElem?_modify_ne _ _ hne]
      rfl
    · rfl
  | _ => rfl

theorem value?_endBody_well {job : Job (Code α)}
    (hstack : m.stack = .body rest (.task job) previous :: below) {k : ℕ} {answer : Answer α}
    (hk : job.body.evaluates = some (k, answer)) (hlt : k < m.evaluations.length) :
    (m.endBody .well).value? k = some (answer.value job.place) := by
  rw [endBody_eq hstack]
  unfold close
  dsimp only
  rw [hk]
  show ((m.evaluations.modify k _)[k]?).bind _ = _
  rw [List.getElem?_modify_eq, List.getElem?_eq_getElem hlt]
  rfl

end Close

/-- Where the task of a call has ended well, its value is there. -/
def Valued (m : Machine Pairwise α) (hist : List (Deed α)) : Prop :=
  ∀ k c job, (calls hist)[k]? = some c → (job, Ending.well) ∈ done hist → slot? job.body = some k →
    m.value? k = some (c.answer.value c.target)

namespace Valued

/-- No call is made, the values are the same, and no task of a call ends well. -/
theorem quiet (h : Valued m hist) (hv : ∀ k, m'.value? k = m.value? k) (hc : calls ds = [])
    (hd : ∀ job, (job, Ending.well) ∈ done ds → slot? job.body = none) : Valued m' (hist ++ ds) := by
  intro k c job hk hj hs
  rw [calls_append, hc, List.append_nil] at hk
  rw [done_append] at hj
  rcases List.mem_append.mp hj with hj | hj
  · rw [hv, h k c job hk hj hs]
  · rw [hd job hj] at hs
    cases hs

theorem finish (h : Valued m hist) (hf : Framed m others hist) (ha : Accounted m others hist g)
    {rest : List (Action α)} {owner : Owner α} {previous : Option Activity} {below : List (Frame α)}
    (hstack : m.stack = .body rest owner previous :: below) (ending : Ending) :
    Valued (m.endBody ending) (hist ++ [.ended owner ending]) := by
  intro k c job hk hj hs
  rw [show calls (hist ++ [.ended owner ending]) = calls hist from
    (calls_append _ _).trans (List.append_nil _)] at hk
  by_cases hx : ∃ job, owner = .task job ∧ ending = .well ∧ slot? job.body = some k
  · obtain ⟨job', rfl, rfl, hs'⟩ := hx
    have hrun : job' ∈ running m.stack :=
      List.mem_filterMap.mpr ⟨.body rest (.task job') previous, hstack ▸ List.mem_cons_self .., rfl⟩
    have htaken := hf.taken_of_atWork (List.mem_append_left _ hrun)
    obtain ⟨c', hk', hplace, hcode⟩ := ha.taken_eq htaken hs'
    obtain rfl : c = c' := Option.some.inj (hk.symm.trans hk')
    rw [← hplace]
    refine value?_endBody_well hstack (by rw [hcode]; rfl) ?_
    rw [hf.slots]
    exact (List.getElem?_eq_some_iff.mp hk).1
  · have hother : ∀ job, owner = .task job → ending = .well → slot? job.body ≠ some k :=
      fun job ho he hs => hx ⟨job, ho, he, hs⟩
    rw [value?_endBody_other hstack hother]
    rw [done_append] at hj
    rcases List.mem_append.mp hj with hj | hj
    · exact h k c job hk hj hs
    · obtain ⟨d, hd, hdone⟩ := List.mem_filterMap.mp hj
      rw [List.mem_singleton.mp hd] at hdone
      cases owner with
      | task job' =>
        cases hdone
        exact absurd hs (hother job rfl rfl)
      | _ => cases hdone

/-- A call is made; none of its tasks was there before. -/
theorem evaluate (h : Valued m hist) (hf : Framed m others hist) (ha : Accounted m others hist g)
    (guarded : Bool) (place target : PlaceId) (body : List (Action α)) (answer : Answer α) :
    Valued (m.openEvaluation guarded place target body answer)
      (hist ++ m.deedsAt guarded place target body answer) := by
  intro k c job hk hj hs
  rw [done_append, done_deedsAt, List.append_nil] at hj
  have htaken : job ∈ taken hist := by
    rw [← Multiset.mem_coe, hf.taken]
    exact Multiset.mem_add.mpr (.inr (List.mem_map.mpr ⟨_, hj, rfl⟩))
  obtain ⟨c', hk', -⟩ := ha.taken_eq htaken hs
  have hlt : k < (calls hist).length := (List.getElem?_eq_some_iff.mp hk').1
  rw [calls_append, List.getElem?_append_left hlt] at hk
  have hv := h k c job hk hj hs
  unfold value? at hv ⊢
  show ((m.evaluations ++ [_])[k]?).bind _ = _
  rwa [List.getElem?_append_left (by rwa [hf.slots])]

theorem part (h : Valued m hist) (hf : Framed m others hist) (ha : Accounted m others hist g)
    (hp : Part others m ds m') : Valued m' (hist ++ ds) := by
  cases hp with
  | aside _ hw hs he =>
    exact h.quiet (fun k => by rw [value?, he, value?]) rfl fun _ hj => absurd hj List.not_mem_nil
  | finish rest owner previous below ending hstack => exact h.finish hf ha hstack ending
  | evaluate a guarded target body answer hact =>
    exact h.evaluate hf ha guarded a.place target body answer
  | start p hp =>
    refine h.quiet (fun k => ?_) rfl fun _ hj => absurd hj List.not_mem_nil
    unfold Program.start
    split <;> rfl
  | begin k job w hw hne =>
    exact h.quiet (fun k => value?_startJob _ job k) rfl fun _ hj => absurd hj List.not_mem_nil
  | idle n job w hw hnil =>
    refine h.quiet (fun k => value?_startJob _ job k) rfl fun job' hj => ?_
    -- a task of a call is registered with an instance of the call's scope
    obtain rfl : job' = job := congrArg Prod.fst (List.mem_singleton.mp hj)
    cases hs : slot? job'.body with
    | none => rfl
    | some k =>
      have hmem := List.mem_of_getElem? (World.takeJob_eq hw).1
      obtain ⟨c, -, hb⟩ := ha.held job' (List.mem_append_left _ hmem) k hs
      rw [hnil] at hb
      cases hb
  | _ => exact h.quiet (fun _ => rfl) rfl fun _ hj => absurd hj List.not_mem_nil

end Valued

end Machine

end Quiescence
