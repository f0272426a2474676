/-
# Programs that stay among the places there are

A text that is `Within` a number of places neither changes that number nor kills
any other place. What a machine runs, sends and queues are parts of the texts of
its programs, so all it ever performs stays within the places too.

Where a program is begun above a request to let happen whatever is left, nothing
takes that request away but a move before which nothing can happen (`Tame.step`).
-/
import Quiescence.Program.Run
import Quiescence.Proofs.Recording

namespace Quiescence

namespace Action

variable {α : Type}

mutual

/-- Neither the action nor what it spawns changes the number of places, or kills another place. -/
def Within (places : ℕ) : Action α → Prop
  | grow _ => False
  | kill p => p.index < places
  | spawn body => WithinAll places body
  | spawnAt _ body => WithinAll places body
  | spawnShared _ _ body => WithinAll places body
  | spawnAmong _ _ body => WithinAll places body
  | spawnUnder _ body => WithinAll places body
  | scope _ body => WithinAll places body
  | evaluate _ body _ => WithinAll places body
  | attempt a => Within places a
  | _ => True

def WithinAll (places : ℕ) : List (Action α) → Prop
  | [] => True
  | a :: as => Within places a ∧ WithinAll places as

end

end Action

namespace World

variable {β : Type} {P : β → Prop} {w w' : World Pairwise β}

/-- The tasks that are on their way or queued are all such. -/
structure Tasks (P : β → Prop) (w : World Pairwise β) : Prop where
  sent : ∀ pk ∈ w.net.packets, ∀ tokens body, pk.content = .handOff tokens body → P body
  queued : ∀ job ∈ w.jobs, P job.body

namespace Tasks

theorem congr (h : Tasks P w) (hp : ∀ pk ∈ w'.net.packets, pk ∈ w.net.packets ∨
      ∀ tokens body, pk.content = .handOff tokens body → P body)
    (hj : w'.jobs = w.jobs) : Tasks P w' where
  sent pk hpk tokens body hc := (hp pk hpk).elim (fun hm => h.sent pk hm tokens body hc) fun hb =>
    hb tokens body hc
  queued job hm := h.queued job (hj ▸ hm)

theorem still (h : Tasks P w) (hs : Still w w') : Tasks P w' :=
  h.congr (fun _ hpk => .inl (hs.net ▸ hpk)) hs.jobs

theorem addSuppressed (h : Tasks P w) (s : Serial) (f : Failure) : Tasks P (w.addSuppressed s f) :=
  h.congr (fun pk hpk => (packets_addSuppressed w s f pk hpk).imp_right fun hne tokens body hc =>
    absurd hc (hne tokens body)) (ground_addSuppressed w s f).2

theorem tell (h : Tasks P w) (s : Serial) : Tasks P (w.tell s) :=
  h.congr (fun pk hpk => (packets_tell w s pk hpk).imp_right fun hne tokens body hc =>
    absurd hc (hne tokens body)) (ground_tell w s).2

theorem tellAll (h : Tasks P w) (fs : List Serial) : Tasks P (w.tellAll fs) :=
  List.foldlRecOn fs _ h fun _ h s _ => h.tell s

theorem enqueue (h : Tasks P w) {job : Job β} (hb : P job.body) : Tasks P (w.enqueue job) where
  sent := h.sent
  queued j hj := by
    rcases List.mem_append.mp hj with hj | hj
    · exact h.queued j hj
    · rwa [List.mem_singleton.mp hj]

theorem endBody (h : Tasks P w) (s : Serial) (failure : Option Failure) :
    Tasks P (w.endBody s failure) := by
  cases failure with
  | none => exact h.tell s
  | some f => exact (h.addSuppressed s f).tell s

theorem complete (h : Tasks P w) (job : Job β) (failure : Option Failure) :
    Tasks P (w.complete job failure) := by
  unfold World.complete
  refine still (tellAll ?_ _) (still_modifySite _ _ _)
  split
  · exact h.addSuppressed _ _
  · exact h

theorem spawnAt (h : Tasks P w) (task : Task β) (hb : P task.body) (p target : PlaceId) :
    Tasks P (w.spawnAt task p target).2 := by
  refine ⟨fun pk hpk tokens body hc => ?_, ?_⟩
  · rcases packets_spawnAt w task p target with hp | ⟨tokens', hp⟩ <;> rw [hp] at hpk
    · exact h.sent pk hpk tokens body hc
    · rcases List.mem_append.mp hpk with hm | hm
      · exact h.sent pk hm tokens body hc
      · rw [List.mem_singleton.mp hm] at hc
        cases hc
        exact hb
  · unfold World.spawnAt
    split_ifs
    · have hst := (still_spawnAll w task.finishes p).trans (still_submitAll _ task.finishes)
      exact ((h.still hst).enqueue hb).queued
    · have h0 := still_prepareAll w task.finishes
      rcases hr : w.prepareAll task.finishes with ⟨_ | tokens, w₁⟩ <;> rw [hr] at h0
      · exact (h.still h0).queued
      · have h1 := h.still (h0.trans (still_spawnAll w₁ task.finishes target))
        dsimp only
        split
        · rename_i hs
          exact fun job hj => h1.queued job ((ground_send hs).2 ▸ hj)
        · exact (h1.still (still_unspawnAll _ _ _)).queued

theorem receive (h : Tasks P w) (p : PlaceId) (m : Message β)
    (hm : ∀ tokens body, m = .handOff tokens body → P body) : Tasks P (w.receive p m) := by
  unfold World.receive
  split
  · exact h
  · refine still ?_ (still_modifySite _ _ _)
    cases m with
    | handOff tokens body =>
      have hacc := h.still (still_acceptAll w p tokens)
      change Tasks P (w.receiveTask p tokens body)
      unfold World.receiveTask
      rcases hr : w.acceptAll p tokens with ⟨⟨accepted, _ | _⟩, w₁⟩ <;> rw [hr] at hacc
      · exact hacc.tellAll accepted
      · exact hacc.enqueue (hm tokens body rfl)
    | report id deltas => exact h.still (still_receiveReport w p id deltas)
    | failure id payload =>
      change Tasks P (w.deliverFailure p id payload)
      unfold World.deliverFailure
      split
      · exact h
      · exact ((h.still (still_submit w _)).addSuppressed _ _).tell _

theorem killAll (h : Tasks P w) (ps : List PlaceId) : Tasks P (w.killAll ps) :=
  List.foldlRecOn ps _ h fun _ h _ _ => ⟨h.sent, h.queued⟩

theorem deliver (h : Tasks P w) {lane : Lane} (hw : w.deliver lane = some w') : Tasks P w' := by
  unfold World.deliver at hw
  split at hw
  · cases hw
  · rename_i pk net ht
    cases hw
    obtain ⟨before, after, hp, rfl, -⟩ := Pairwise.take_split ht
    have hrest : Tasks P { w with net := { w.net with packets := before ++ after } } := by
      refine h.congr (fun q hq => .inl ?_) rfl
      rw [hp]
      rcases List.mem_append.mp hq with hq | hq
      · exact List.mem_append_left _ hq
      · exact List.mem_append_right _ (List.mem_cons_of_mem _ hq)
    refine hrest.receive pk.dest pk.content fun tokens body hc => h.sent pk ?_ tokens body hc
    rw [hp]
    exact List.mem_append_right _ (List.mem_cons_self ..)

theorem takeJob (h : Tasks P w) {i : ℕ} {job : Job β} (ht : w.takeJob i = some (job, w')) :
    P job.body ∧ Tasks P w' := by
  unfold World.takeJob at ht
  split at ht
  · cases ht
  · rename_i hjob
    cases ht
    exact ⟨h.queued _ (List.mem_of_getElem? hjob), h.sent, fun j hj =>
      h.queued j (List.mem_of_mem_eraseIdx hj)⟩

end Tasks

end World

namespace Machine

open World (Tasks)

variable {α : Type} {places : ℕ} {m m' : Machine Pairwise α}

/-- The actions that a frame has left. -/
def Frame.rest : Frame α → List (Action α)
  | .body rest _ _ => rest
  | .await _ _ => []
  | .pump _ => []

/-- All that is left of the texts stays within the places, and at the bottom of the stack is a
request to let happen whatever is left. -/
structure Tame (places : ℕ) (m : Machine Pairwise α) : Prop where
  frames : ∀ f ∈ m.stack, Action.WithinAll places f.rest
  tasks : Tasks (fun code => Action.WithinAll places code.body) m.world
  bottom : m.stack.getLast? = some (.pump none)

namespace Tame

theorem congr (h : Tame places m) (hw : m'.world = m.world) (hs : m'.stack = m.stack) : Tame places m' :=
  ⟨hs ▸ h.frames, hw ▸ h.tasks, hs ▸ h.bottom⟩

theorem inWorld (h : Tame places m) {w : World Pairwise (Code α)}
    (hw : Tasks (fun code => Action.WithinAll places code.body) w) : Tame places { m with world := w } :=
  ⟨h.frames, hw, h.bottom⟩

theorem push (h : Tame places m) {f : Frame α} (hf : Action.WithinAll places f.rest) :
    Tame places (m.push f) where
  frames := List.forall_mem_cons.mpr ⟨hf, h.frames⟩
  tasks := h.tasks
  bottom := by
    show (f :: m.stack).getLast? = _
    rw [List.getLast?_cons, h.bottom]
    rfl

/-- A frame on top that is not the one at the bottom can be taken away. -/
theorem pop (h : Tame places m) {f : Frame α} {rest : List (Frame α)} (hstack : m.stack = f :: rest)
    (hf : rest = [] → f ≠ .pump none) : Tame places { m with stack := rest } where
  frames g hg := h.frames g (hstack ▸ List.mem_cons_of_mem _ hg)
  tasks := h.tasks
  bottom := by
    have hb := h.bottom
    rw [hstack] at hb
    cases rest with
    | nil => exact absurd (Option.some.inj hb) (hf rfl)
    | cons g rest => rwa [List.getLast?_cons_cons] at hb

theorem close (h : Tame places m) (owner : Owner α) (ending : Ending) :
    Tame places (m.close owner ending) := by
  cases owner with
  | scope s p resume => exact (h.inWorld (h.tasks.endBody s _)).push trivial
  | task job =>
    have hw := h.inWorld (h.tasks.complete job (ending.failure? job.place))
    unfold Machine.close
    dsimp only
    split
    · exact hw.congr rfl rfl
    · exact hw
  | bare => exact h.congr rfl rfl

theorem endBody (h : Tame places m) (ending : Ending) : Tame places (m.endBody ending) := by
  unfold Machine.endBody
  split
  · rename_i rest owner previous below hstack
    have hpop := h.pop hstack fun _ => nofun
    exact close (m := { m with stack := below, current := previous }) (hpop.congr rfl rfl) owner ending
  · exact h

theorem refuse (h : Tame places m) (guarded : Bool) (e : Raised) : Tame places (m.refuse guarded e) := by
  unfold Machine.refuse
  split_ifs
  · exact h.congr rfl rfl
  · exact h.endBody _

theorem settle (h : Tame places m) (guarded : Bool) (result : Except ScopeError Unit) :
    Tame places (m.settle guarded result) := by
  cases result with
  | ok _ => exact h
  | error e => exact h.refuse guarded _

theorem withActivity (h : Tame places m) (guarded : Bool) {act : Activity → Machine Pairwise α}
    (ha : ∀ a, Tame places (act a)) : Tame places (m.withActivity guarded act) := by
  unfold Machine.withActivity
  split
  · exact ha _
  · exact h.refuse guarded _

theorem handOver (h : Tame places m) (guarded : Bool) (finishes : List Serial) (place target : PlaceId)
    {body : List (Action α)} (hb : Action.WithinAll places body) :
    Tame places (m.handOver guarded finishes place target body) := by
  unfold Machine.handOver
  split
  · exact h.refuse guarded _
  · rename_i task ht
    have hbody : task.body.body = body := by
      unfold Task.register at ht
      split_ifs at ht
      cases ht
      rfl
    exact (h.inWorld (h.tasks.spawnAt task (hbody ▸ hb) place target)).settle guarded _

theorem enter (h : Tame places m) (activity : Option Activity) {body : List (Action α)}
    (hb : Action.WithinAll places body) (owner : Owner α) : Tame places (m.enter activity body owner) :=
  (h.push (f := .body body owner m.current) hb).congr rfl rfl

theorem openScope (h : Tame places m) (place : PlaceId) (kind : ScopeKind) {body : List (Action α)}
    (hb : Action.WithinAll places body) (resume : Resume) :
    Tame places (m.openScope place kind body resume) :=
  enter (m := { m with world := (m.world.openScope place kind).2 })
    (h.inWorld ⟨h.tasks.sent, h.tasks.queued⟩) _ hb _

theorem openEvaluation (h : Tame places m) (guarded : Bool) (place target : PlaceId)
    {body : List (Action α)} (hb : Action.WithinAll places body) (answer : Answer α) :
    Tame places (m.openEvaluation guarded place target body answer) := by
  have hopen : Tasks (fun code => Action.WithinAll places code.body)
      (m.world.openScope place (m.defaultKind place)).2 := ⟨h.tasks.sent, h.tasks.queued⟩
  have hspawn := hopen.spawnAt ⟨[m.world.instances.length], place,
    ⟨body, some (m.evaluations.length, answer)⟩⟩ hb place target
  exact ((h.inWorld (hspawn.endBody _ _)).push (f := .await _ _) trivial).congr rfl rfl

theorem perform (h : Tame places m) : ∀ (a : Action α) (guarded : Bool), a.Within places →
    Tame places (m.perform guarded a)
  | .log _, _, _ => h.congr rfl rfl
  | .fail _, guarded, _ => h.refuse guarded _
  | .panic _, _, _ => h.endBody _
  | .save _, guarded, _ => h.withActivity guarded fun _ => h.congr rfl rfl
  | .info, guarded, _ => h.withActivity guarded fun a => by
    split
    · exact h.congr rfl rfl
    · exact h
  | .kill p, _, _ => h.inWorld ⟨h.tasks.sent, h.tasks.queued⟩
  | .grow _, _, ha => absurd ha (by simp [Action.Within])
  | .pump _, _, _ => h.push trivial
  | .spawn _, guarded, ha | .spawnAt _ _, guarded, ha | .spawnShared _ _ _, guarded, ha =>
    h.withActivity guarded fun _ => h.handOver guarded _ _ _ (by simpa [Action.Within] using ha)
  | .spawnAmong _ _ _, guarded, ha | .spawnUnder _ _, guarded, ha => by
    unfold Machine.perform
    dsimp only
    split
    · exact h.handOver guarded _ _ _ (by simpa [Action.Within] using ha)
    · exact h.refuse guarded _
  | .scope none _, guarded, ha => h.withActivity guarded fun _ =>
    h.openScope _ _ (by simpa [Action.Within] using ha) _
  | .scope (some _) _, guarded, ha => h.withActivity guarded fun a => by
    split
    · exact h.openScope _ _ (by simpa [Action.Within] using ha) _
    · exact h
  | .evaluate _ _ _, guarded, ha => h.withActivity guarded fun _ =>
    h.openEvaluation guarded _ _ (by simpa [Action.Within] using ha) _
  | .attempt a, _, ha => by
    rw [Machine.perform]
    rw [Action.Within] at ha
    exact h.perform a true ha

theorem happen (h : Tame places m) {ready : World.Ready} (hm : m.happen ready = some m') :
    Tame places m' := by
  cases ready with
  | delivery lane =>
    obtain ⟨w, hw, rfl⟩ := Option.map_eq_some_iff.mp hm
    exact h.inWorld (h.tasks.deliver hw)
  | job i =>
    obtain ⟨⟨job, w⟩, hw, rfl⟩ := Option.map_eq_some_iff.mp hm
    obtain ⟨hb, hw⟩ := h.tasks.takeJob hw
    have h' := h.inWorld hw
    show Tame places ({ m with world := w }.startJob job)
    unfold Machine.startJob
    split
    · exact h'.inWorld (hw.complete job none)
    · dsimp only
      split
      · exact enter (m := modifyEvaluation { m with world := w } _ _) (h'.congr rfl rfl) _ hb _
      · exact h'.enter _ hb _

theorem tick (h : Tame places m) (hm : m.tick = some m') : Tame places m' := by
  unfold Machine.tick at hm
  dsimp only at hm
  split at hm
  · exact happen (m := { m with cursor := m.cursor + 1 }) (h.congr rfl rfl) hm
  · cases hm

theorem leave (h : Tame places m) (s : Serial) (resume : Resume) : Tame places (m.leave s resume) := by
  have hw := h.inWorld (h.tasks.still (World.still_leave m.world s))
  unfold Machine.leave
  cases resume with
  | body guarded => exact hw.settle guarded _
  | evaluation slot target guarded =>
    dsimp only
    split
    · exact hw.settle guarded _
    · exact hw.congr rfl rfl
    · exact hw.settle guarded _
  | outcome => exact hw.congr rfl rfl

/-- A move keeps to the texts, or is the last. -/
theorem step (h : Tame places m) (hm : m.step = .to m') :
    Tame places m' ∨ m'.stack = [] ∧ m'.world = m.world ∧ m.tick = none := by
  unfold Machine.step at hm
  split at hm
  · cases hm
  · cases hm
    exact .inl (h.endBody _)
  · rename_i a as owner previous rest hstack
    cases hm
    have hin := h.frames _ (hstack ▸ List.mem_cons_self ..)
    simp only [Frame.rest, Action.WithinAll] at hin
    refine .inl (perform ?_ a false hin.1)
    exact (h.pop hstack fun _ => nofun).push (f := .body as owner previous) hin.2
  · rename_i s resume rest hstack
    split_ifs at hm
    · cases hm
      exact .inl ((h.pop hstack fun _ => nofun).leave s resume)
    · split at hm
      · cases hm
        exact .inl (h.tick ‹_›)
      · cases hm
  · rename_i rest hstack
    cases hm
    exact .inl (h.pop hstack fun _ => by simp)
  · rename_i left rest hne hstack
    split at hm
    · rename_i m₂ htick
      cases hm
      have hsame : left = none → { m with stack := .pump (left.map (· - 1)) :: rest } = m := by
        rintro rfl
        rw [Option.map_none, ← hstack]
      by_cases hleft : left = none
      · exact .inl (h.tick (hsame hleft ▸ htick))
      · have hpop := h.pop hstack fun _ he => hleft (Frame.pump.inj he)
        exact .inl (tick (hpop.push (f := .pump (left.map (· - 1))) trivial) htick)
    · rename_i htick
      cases hm
      by_cases hlast : left = none ∧ rest = []
      · obtain ⟨rfl, rfl⟩ := hlast
        refine .inr ⟨rfl, rfl, ?_⟩
        rwa [Option.map_none, ← hstack] at htick
      · exact .inl (h.pop hstack fun hr he => hlast ⟨Frame.pump.inj he, hr⟩)

theorem start (h : Tame places m) {p : Program α} (hb : Action.WithinAll places p.body) :
    Tame places (p.start m) := by
  unfold Program.start
  split
  · exact h.enter _ hb _
  · exact h.openScope _ _ hb _

end Tame

end Machine

end Quiescence
