/-
# Calls for remote evaluations

A history tells which remote evaluations were called, in what order, and which
tasks were taken up and ended. The position of a call is its slot: whoever waits
for the value looks it up there, and so does the task that gives it.

* `Framed`: what the stacks of the workers have to do with that. Whoever waits
  for an evaluation waits for the scope of its call, on top of the body that
  called, and each task that was taken up runs or has ended.
* `Framed.part`: each part of a move keeps it.
-/
import Quiescence.Proofs.Programs

namespace Quiescence

namespace Machine

variable {α : Type}

/-! ### What a history tells of evaluations -/

/-- The evaluation that a task is for. -/
def slot? (code : Code α) : Option ℕ := code.evaluates.map Prod.fst

/-- The remote evaluations in the order they were called; the position of one is its slot. -/
def calls (hist : List (Deed α)) : List (Call α) := hist.filterMap Deed.call?

/-- The tasks that workers took up. -/
def taken (hist : List (Deed α)) : List (Job (Code α)) := hist.filterMap Deed.taken?

/-- The tasks whose bodies have ended. -/
def done (hist : List (Deed α)) : List (Job (Code α) × Ending) := hist.filterMap Deed.done?

@[simp] theorem calls_append (hist ds : List (Deed α)) : calls (hist ++ ds) = calls hist ++ calls ds :=
  List.filterMap_append ..

@[simp] theorem taken_append (hist ds : List (Deed α)) : taken (hist ++ ds) = taken hist ++ taken ds :=
  List.filterMap_append ..

@[simp] theorem done_append (hist ds : List (Deed α)) : done (hist ++ ds) = done hist ++ done ds :=
  List.filterMap_append ..

section At

variable (m : Machine Pairwise α) (guarded : Bool) (place target : PlaceId) (body : List (Action α))
  (answer : Answer α)

@[simp] theorem calls_deedsAt : calls (m.deedsAt guarded place target body answer) =
    [m.callAt place target body answer] := rfl

@[simp] theorem taken_deedsAt : taken (m.deedsAt guarded place target body answer) = [] := rfl

@[simp] theorem done_deedsAt : done (m.deedsAt guarded place target body answer) = [] := rfl

end At

/-- The task of a body that runs. -/
def Frame.job? : Frame α → Option (Job (Code α))
  | .body _ (.task job) _ => some job
  | _ => none

/-- The tasks that run on a stack. -/
def running (stack : List (Frame α)) : List (Job (Code α)) := stack.filterMap Frame.job?

/-- The tasks that any worker runs. -/
def atWork (m : Machine Pairwise α) (others : List (List (Frame α))) : List (Job (Code α)) :=
  running m.stack ++ others.flatMap running

/-- The body on top is the one that made the call: it runs at the place of the call, and some scope
governs it. -/
def Call.Caller (c : Call α) (stack : List (Frame α)) : Prop :=
  ∃ rest owner previous below s,
    stack = .body rest owner previous :: below ∧ owner.activity? = some ⟨c.place, s⟩

/-- Whoever waits for an evaluation waits for the scope of its call, on top of the body that called. -/
def Frame.Fits (cs : List (Call α)) (below : List (Frame α)) : Frame α → Prop
  | .body _ (.scope _ _ (.evaluation _ _ _)) _ => False
  | .await s (.evaluation slot target _) =>
    ∃ c, cs[slot]? = some c ∧ c.scope = s ∧ c.target = target ∧ c.Caller below
  | _ => True

def Fits (cs : List (Call α)) : List (Frame α) → Prop
  | [] => True
  | f :: below => f.Fits cs below ∧ Fits cs below

theorem Fits.mono {cs : List (Call α)} {stack : List (Frame α)} (h : Fits cs stack)
    (cs' : List (Call α)) : Fits (cs ++ cs') stack := by
  induction stack with
  | nil => trivial
  | cons f below ih =>
    refine ⟨?_, ih h.2⟩
    have hf := h.1
    unfold Frame.Fits at hf ⊢
    split at hf
    · exact hf.elim
    · obtain ⟨c, hc, hrest⟩ := hf
      refine ⟨c, ?_, hrest⟩
      rw [List.getElem?_append_left (List.getElem?_eq_some_iff.mp hc).1, hc]
    · trivial

/-- What waits on the stack when the body has ended. -/
def Owner.awaits : Owner α → List (Frame α)
  | .scope s _ resume => [.await s resume]
  | _ => []

/-- No body that runs is that of the scope of an evaluation. So it may go on, and end. -/
theorem Fits.body {cs : List (Call α)} {rest : List (Action α)} {owner : Owner α}
    {previous : Option Activity} {below : List (Frame α)}
    (h : Fits cs (.body rest owner previous :: below)) :
    (∀ rest', Fits cs (.body rest' owner previous :: below)) ∧ Fits cs (owner.awaits ++ below) := by
  obtain ⟨hf, hb⟩ := h
  cases owner with
  | scope s p resume =>
    cases resume with
    | evaluation slot target guarded => exact hf.elim
    | _ => exact ⟨fun _ => ⟨trivial, hb⟩, trivial, hb⟩
  | _ => exact ⟨fun _ => ⟨trivial, hb⟩, hb⟩

variable {m m' : Machine Pairwise α} {others : List (List (Frame α))} {hist ds : List (Deed α)}
  {g g' : Ledger (Code α)}

/-- The stack and the slots are as the history tells. -/
structure Framed (m : Machine Pairwise α) (others : List (List (Frame α))) (hist : List (Deed α)) :
    Prop where
  frames : ∀ stack ∈ m.stack :: others, Fits (calls hist) stack
  slots : m.evaluations.length = (calls hist).length
  /-- The body of the scope of a call ends as the hand-over did. -/
  scopes : ∀ c ∈ calls hist,
    (⟨⟨c.place, [c.scope]⟩, .ofResult c.result⟩ : Ended) ∈ hist.filterMap Deed.ended?
  /-- Each task taken up runs, or its body has ended. -/
  taken : (taken hist : Multiset (Job (Code α))) =
    m.atWork others + ((done hist).map Prod.fst : List _)

namespace Framed

/-- No call is made, the stack fits as it did, and each task taken up or ended was begun or left the
stack. -/
theorem quiet (h : Framed m others hist) (hf : Fits (calls hist) m.stack → Fits (calls hist) m'.stack)
    (he : m'.evaluations.length = m.evaluations.length) (hc : calls ds = [])
    (ht : (running m.stack + Machine.taken ds : Multiset (Job (Code α))) =
      running m'.stack + ((done ds).map Prod.fst : List _)) : Framed m' others (hist ++ ds) where
  frames := by
    obtain ⟨htop, hothers⟩ := List.forall_mem_cons.mp h.frames
    rw [calls_append, hc, List.append_nil]
    exact List.forall_mem_cons.mpr ⟨hf htop, hothers⟩
  slots := by rw [he, h.slots, calls_append, hc, List.append_nil]
  scopes c hm := by
    rw [calls_append, hc, List.append_nil] at hm
    rw [List.filterMap_append]
    exact List.mem_append_left _ (h.scopes c hm)
  taken := by
    rw [taken_append, done_append, List.map_append, ← Multiset.coe_add, ← Multiset.coe_add, h.taken]
    unfold atWork
    rw [← Multiset.coe_add, ← Multiset.coe_add]
    have hsplit : ∀ a b c d e f : Multiset (Job (Code α)), a + d = e + f →
        a + b + c + d = e + b + (c + f) := fun a b c d e f hx => by
      calc a + b + c + d = a + d + (b + c) := by abel
        _ = e + f + (b + c) := by rw [hx]
        _ = e + b + (c + f) := by abel
    exact hsplit _ _ _ _ _ _ ht

/-- Nor is a task taken up, nor does one end. -/
theorem congr (h : Framed m others hist) (hf : Fits (calls hist) m.stack → Fits (calls hist) m'.stack)
    (he : m'.evaluations.length = m.evaluations.length) (hj : running m'.stack = running m.stack)
    (hc : calls ds = []) (ht : Machine.taken ds = []) (hd : done ds = []) :
    Framed m' others (hist ++ ds) :=
  h.quiet hf he hc (by rw [hj, ht, hd]; rfl)

theorem top (h : Framed m others hist) {f : Frame α} {below : List (Frame α)}
    (hstack : m.stack = f :: below) : Fits (calls hist) (f :: below) :=
  hstack ▸ h.frames _ (List.mem_cons_self ..)

end Framed

theorem length_endBody (m : Machine Pairwise α) (ending : Ending) :
    (m.endBody ending).evaluations.length = m.evaluations.length := by
  unfold Machine.endBody
  split
  · rename_i rest owner previous below hstack
    cases owner with
    | task job =>
      unfold Machine.close
      dsimp only
      split
      · exact List.length_modify ..
      · rfl
    | _ => rfl
  · rfl

theorem length_startJob (m : Machine Pairwise α) (job : Job (Code α)) :
    (m.startJob job).evaluations.length = m.evaluations.length := by
  unfold Machine.startJob
  split
  · rfl
  · dsimp only
    split
    · exact List.length_modify ..
    · rfl

theorem stack_endBody {rest : List (Action α)} {owner : Owner α} {previous : Option Activity}
    {below : List (Frame α)} (hstack : m.stack = .body rest owner previous :: below) (ending : Ending) :
    (m.endBody ending).stack = owner.awaits ++ below := by
  rw [endBody_eq hstack]
  cases owner with
  | task job =>
    unfold Machine.close
    dsimp only
    split <;> rfl
  | _ => rfl

theorem Framed.finish (h : Framed m others hist) {rest : List (Action α)} {owner : Owner α}
    {previous : Option Activity} {below : List (Frame α)}
    (hstack : m.stack = .body rest owner previous :: below) (ending : Ending) :
    Framed (m.endBody ending) others (hist ++ [.ended owner ending]) := by
  have hs := stack_endBody hstack ending
  refine h.quiet (fun hf => ?_) (length_endBody m ending) rfl ?_
  · rw [hs]
    exact (h.top hstack).body.2
  · rw [hs, hstack]
    cases owner with
    | task job =>
      simp only [running, Frame.job?, Machine.taken, done, Deed.taken?, Deed.done?, Owner.awaits,
        List.filterMap_cons, List.filterMap_nil, List.nil_append, List.map_cons, List.map_nil,
        ← Multiset.cons_coe, Multiset.coe_nil, ← Multiset.singleton_add]
      abel
    | _ =>
      simp [running, Frame.job?, Machine.taken, done, Deed.taken?, Deed.done?, Owner.awaits,
        List.filterMap_cons]

/-- A task is taken up and its body begins. -/
theorem Framed.begin (h : Framed m others hist) {w : World Pairwise (Code α)} {job : Job (Code α)}
    (hf : job.finishes ≠ []) :
    Framed (({ m with world := w } : Machine Pairwise α).startJob job) others (hist ++ [.took job]) := by
  refine h.quiet (fun hm => ?_) (length_startJob _ job) rfl ?_
  · rw [startJob_stack hf]
    exact ⟨trivial, hm⟩
  · rw [startJob_stack hf]
    simp only [running, Frame.job?, Machine.taken, done, Deed.taken?, Deed.done?, List.filterMap_cons,
      List.filterMap_nil, List.map_nil, ← Multiset.cons_coe, Multiset.coe_nil, ← Multiset.singleton_add]
    abel

theorem Framed.idle (h : Framed m others hist) {w : World Pairwise (Code α)} {job : Job (Code α)}
    (hf : job.finishes = []) :
    Framed (({ m with world := w } : Machine Pairwise α).startJob job) others
      (hist ++ [.took job, .ended (.task job) .well]) := by
  rw [startJob_idle hf]
  exact h.quiet id rfl rfl rfl

/-- A call is made, and its scope waited for. -/
theorem Framed.evaluate (h : Framed m others hist) {a : Activity} (ha : m.Active a) (guarded : Bool)
    (target : PlaceId) (body : List (Action α)) (answer : Answer α) :
    Framed (m.openEvaluation guarded a.place target body answer) others
      (hist ++ m.deedsAt guarded a.place target body answer) where
  frames := by
    obtain ⟨htop, hothers⟩ := List.forall_mem_cons.mp h.frames
    obtain ⟨rest, owner, previous, below, hstack, hact⟩ := ha
    rw [calls_append]
    refine List.forall_mem_cons.mpr ⟨⟨⟨m.callAt a.place target body answer, ?_, rfl, rfl, rest, owner,
      previous, below, a.scope, hstack, hact⟩, htop.mono _⟩, fun stack hs => (hothers stack hs).mono _⟩
    rw [h.slots]
    exact List.getElem?_concat_length
  slots := by
    rw [calls_append, List.length_append, ← h.slots]
    exact List.length_append
  scopes c hm := by
    rw [calls_append] at hm
    rw [List.filterMap_append]
    rcases List.mem_append.mp hm with hm | hm
    · exact List.mem_append_left _ (h.scopes c hm)
    · rw [List.mem_singleton.mp hm]
      exact List.mem_append_right _ (List.mem_singleton_self _)
  taken := by
    rw [taken_append, done_append]
    show _ = (m.atWork others : Multiset (Job (Code α))) + _
    rw [taken_deedsAt, done_deedsAt, List.append_nil, List.append_nil]
    exact h.taken

theorem Framed.part (h : Framed m others hist) (hp : Part others m ds m') :
    Framed m' others (hist ++ ds) := by
  cases hp with
  | aside _ hw hs he =>
    exact h.congr (fun hf => hs ▸ hf) (by rw [he]) (by rw [hs]) rfl rfl rfl
  | shorten a as owner previous below hstack =>
    exact h.congr (fun _ => (h.top hstack).body.1 as) rfl (by rw [hstack]; cases owner <;> rfl)
      rfl rfl rfl
  | pump left => exact h.congr (fun hf => ⟨trivial, hf⟩) rfl rfl rfl rfl rfl
  | pumped left below hstack =>
    exact h.congr (fun _ => (h.top hstack).2) rfl (by rw [hstack]; rfl) rfl rfl rfl
  | kill p w hw => exact h.congr id rfl rfl rfl rfl rfl
  | resize places hk => exact h.congr id rfl rfl rfl rfl rfl
  | spawn finishes place target body hs => exact h.congr id rfl rfl rfl rfl rfl
  | finish rest owner previous below ending hstack => exact h.finish hstack ending
  | openScope a place kind body guarded hact hplace =>
    exact h.congr (fun hf => ⟨trivial, hf⟩) rfl rfl rfl rfl rfl
  | evaluate a guarded target body answer hact => exact h.evaluate hact guarded target body answer
  | start p hp =>
    unfold Program.start
    split
    · exact h.congr (fun hf => ⟨trivial, hf⟩) rfl rfl rfl rfl rfl
    · exact h.congr (fun hf => ⟨trivial, hf⟩) rfl rfl rfl rfl rfl
  | deliver lane w hw => exact h.congr id rfl rfl rfl rfl rfl
  | begin k job w hw hf => exact h.begin hf
  | idle k job w hw hf => exact h.idle hf
  | leave s resume below hstack hz =>
    exact h.congr (fun _ => (h.top hstack).2) rfl (by rw [hstack]; rfl) rfl rfl rfl

theorem Framed.hire (h : Framed m others hist) : Framed m ([] :: others) hist where
  frames := by
    obtain ⟨htop, hothers⟩ := List.forall_mem_cons.mp h.frames
    exact List.forall_mem_cons.mpr ⟨htop, List.forall_mem_cons.mpr ⟨trivial, hothers⟩⟩
  slots := h.slots
  scopes := h.scopes
  taken := h.taken

theorem Framed.switch {before after : List (List (Frame α))} {stack : List (Frame α)}
    (h : Framed m (before ++ stack :: after) hist) :
    Framed (m.turnTo stack) (before ++ m.stack :: after) hist where
  frames f hf := by
    refine h.frames f ?_
    simp only [turnTo, List.mem_append, List.mem_cons] at hf ⊢
    tauto
  slots := h.slots
  scopes := h.scopes
  taken := by
    rw [h.taken]
    exact congrArg (· + _) (coe_switch running m.stack stack before after).symm

/-- What runs was taken up. -/
theorem Framed.taken_of_atWork (h : Framed m others hist) {job : Job (Code α)}
    (hj : job ∈ m.atWork others) : job ∈ Machine.taken hist := by
  rw [← Multiset.mem_coe, h.taken]
  exact Multiset.mem_add.mpr (.inl hj)

end Machine

end Quiescence
