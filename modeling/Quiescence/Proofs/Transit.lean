/-
# Tasks between their spawn and a worker

A task that has been handed over is in a message on its way or in the queue of a
place, until a worker takes it up; or its message has come to a place that was
never built. These are the *loose* tasks. Each operation leaves them as they are
(`SameTasks`), but for three: a spawn that succeeds adds its task, a worker takes
one away, and a delivery moves one.

* `offered_spawnAt`: the task of a spawn is loose exactly if the spawn succeeds.
* `Consistent.fetched`: what a delivery does to the tasks. One that is queued is
  registered with instances of the scopes that its tokens name.
* `Offered.loose`, `loose_takeJob`, `loose_fetched`: the loose tasks are those handed
  over less those taken up.
-/
import Quiescence.Proofs.Recording
import Quiescence.Proofs.Registration

namespace Quiescence

namespace World

variable {β : Type} {w w' w'' : World Pairwise β} {g g' : Ledger β}
  {limbo : Multiset (Serial × PlaceId)} {arrived : List (Packet (Message β))}
  {p target : PlaceId} {fs : List Serial} {tokens : List Token} {task : Task β}

/-- Instances that the same tokens name are of the same scopes. -/
theorem Tokened.akin {fs' : List Serial} (h : Tokened w fs tokens) (h' : Tokened w fs' tokens) :
    List.Forall₂ w.Akin fs fs' := by
  induction h generalizing fs' with
  | nil =>
    cases h'
    exact .nil
  | cons hs _ ih =>
    cases h' with
    | cons hs' h' => exact .cons ((akin_iff hs').mpr hs) (ih h')

/-! ### Hand-offs -/

/-- A task in a message, with a token for each scope that it is registered with. -/
structure HandOff (β : Type) where
  dest : PlaceId
  tokens : List Token
  body : β

def handOff? (pk : Packet (Message β)) : Option (HandOff β) :=
  match pk.content with
  | .handOff tokens body => some ⟨pk.dest, tokens, body⟩
  | _ => none

/-- The tasks in some messages. -/
def handOffs (pks : List (Packet (Message β))) : List (HandOff β) := pks.filterMap handOff?

@[simp] theorem handOffs_append (pks pks' : List (Packet (Message β))) :
    handOffs (pks ++ pks') = handOffs pks ++ handOffs pks' := List.filterMap_append ..

theorem handOffs_send {sender dest : PlaceId} {m : Message β} (h : w.send sender dest m = .ok w')
    (hm : handOff? ⟨sender, dest, m⟩ = none) :
    handOffs w'.net.packets = handOffs w.net.packets := by
  rw [packets_send h, handOffs_append]
  simp [handOffs, hm]

/-- The tasks on their way and in the queues are the same. -/
structure SameTasks (w w' : World Pairwise β) : Prop where
  sent : handOffs w'.net.packets = handOffs w.net.packets
  queued : w'.jobs = w.jobs

namespace SameTasks

theorem refl (w : World Pairwise β) : SameTasks w w := ⟨rfl, rfl⟩

theorem trans (h : SameTasks w w') (h' : SameTasks w' w'') : SameTasks w w'' :=
  ⟨h'.sent.trans h.sent, h'.queued.trans h.queued⟩

end SameTasks

theorem Still.sameTasks (h : Still w w') : SameTasks w w' := ⟨by rw [h.net], h.jobs⟩

theorem sameTasks_addSuppressed (w : World Pairwise β) (s : Serial) (f : Failure) :
    SameTasks w (w.addSuppressed s f) := by
  refine ⟨?_, (ground_addSuppressed w s f).2⟩
  unfold World.addSuppressed
  split
  · rfl
  · rename_i i hi
    have hnet := (still_retain w s i f).net
    dsimp only
    split
    · rw [net_setInstance, hnet]
    · split
      · rw [handOffs_send ‹_› rfl, net_setInstance, hnet]
      · rw [net_setInstance, hnet]

theorem sameTasks_tell (w : World Pairwise β) (s : Serial) : SameTasks w (w.tell s) := by
  refine ⟨?_, (ground_tell w s).2⟩
  unfold World.tell World.report
  split
  · rfl
  · split
    · split
      · rfl
      · dsimp only [World.unbind, net_modifyIdentities]
        split
        · rw [handOffs_send ‹_› rfl, net_setInstance]
        · rfl
    · rfl

theorem sameTasks_tellAll (w : World Pairwise β) (fs : List Serial) : SameTasks w (w.tellAll fs) :=
  List.foldlRecOn (motive := SameTasks w) fs _ (.refl w) fun _ h s _ => h.trans (sameTasks_tell _ s)

theorem sameTasks_endBody (w : World Pairwise β) (s : Serial) (failure : Option Failure) :
    SameTasks w (w.endBody s failure) := by
  cases failure with
  | none => exact sameTasks_tell w s
  | some f => exact (sameTasks_addSuppressed w s f).trans (sameTasks_tell _ s)

theorem lasts_endBody (w : World Pairwise β) (s : Serial) (failure : Option Failure) :
    Lasts w (w.endBody s failure) := by
  cases failure with
  | none => exact (moved_tell w s).lasts
  | some f => exact ((moved_addSuppressed w s f).trans (moved_tell _ s)).lasts

theorem sameTasks_complete (w : World Pairwise β) (job : Job β) (failure : Option Failure) :
    SameTasks w (w.complete job failure) := by
  unfold World.complete
  refine SameTasks.trans ?_ (still_modifySite _ _ _).sameTasks
  refine SameTasks.trans ?_ (sameTasks_tellAll _ _)
  split
  · exact sameTasks_addSuppressed _ _ _
  · exact .refl w

theorem sameTasks_deliverFailure (w : World Pairwise β) (home : PlaceId) (id : GlobalId)
    (payload : Wire.Bytes) : SameTasks w (w.deliverFailure home id payload) := by
  unfold World.deliverFailure
  split
  · exact .refl w
  · rename_i r _
    exact ((still_submit w r).sameTasks.trans (sameTasks_addSuppressed _ r _)).trans (sameTasks_tell _ r)

/-! ### Spawns -/

/-- A task has been handed over to a place. -/
inductive Handed (w w' : World Pairwise β) (task : Task β) (target : PlaceId) : Prop where
  | here : handOffs w'.net.packets = handOffs w.net.packets →
      w'.jobs = w.jobs ++ [⟨target, task.finishes, task.body⟩] → Handed w w' task target
  | away (tokens : List Token) : Tokened w' task.finishes tokens →
      handOffs w'.net.packets = handOffs w.net.packets ++ [⟨target, tokens, task.body⟩] →
      w'.jobs = w.jobs → Handed w w' task target

/-- A task was offered to a place: it has been handed over if that went well, and else there is none. -/
def Offered (w w' : World Pairwise β) (task : Task β) (target : PlaceId) :
    Except ScopeError Unit → Prop
  | .ok _ => Handed w w' task target
  | .error _ => SameTasks w w'

theorem offered_spawnAt (hc : Consistent w g limbo arrived) (task : Task β) (p target : PlaceId) :
    Offered w (w.spawnAt task p target).2 task target (w.spawnAt task p target).1 := by
  by_cases htp : target = p
  · subst htp
    have hw : w.spawnAt task target target = (.ok (), w.spawnHere task target) := by
      simp [World.spawnAt]
    have hst := (still_spawnAll w task.finishes target).trans (still_submitAll _ task.finishes)
    rw [hw]
    exact .here (congrArg (handOffs ·.packets) hst.net) (congrArg (· ++ _) hst.jobs)
  · obtain ⟨-, -, htok⟩ := hc.prepareAll task.finishes
    have h0 := still_prepareAll w task.finishes
    simp only [World.spawnAt, if_neg htp]
    rcases hw : w.prepareAll task.finishes with ⟨_ | tokens, w₁⟩ <;> rw [hw] at h0 htok
    · exact h0.sameTasks
    · have h1 := h0.trans (still_spawnAll w₁ task.finishes target)
      dsimp only
      rcases hsend : (w₁.spawnAll task.finishes target).send p target (.handOff tokens task.body)
        with e | w₂
      · exact (h1.trans (still_unspawnAll _ task.finishes target)).sameTasks
      · have htok' : Tokened (w₁.spawnAll task.finishes target) task.finishes tokens := by
          unfold Tokened
          rw [(steady_spawnAll w₁ task.finishes target).ids]
          exact htok tokens rfl
        obtain ⟨-, heq⟩ := moved_send htok'.inUse hsend
        refine .away tokens (heq ▸ htok') ?_ ((ground_send hsend).2.trans h1.jobs)
        rw [packets_send hsend, handOffs_append, h1.net]
        rfl

namespace Offered

variable {result : Except ScopeError Unit}

theorem after (hs : SameTasks w w') (h : Offered w' w'' task target result) :
    Offered w w'' task target result := by
  cases result with
  | error e => exact hs.trans h
  | ok u =>
    cases h with
    | here hsent hjobs => exact .here (hsent.trans hs.sent) (by rw [hjobs, hs.queued])
    | away tokens htok hsent hjobs =>
      exact .away tokens htok (by rw [hsent, hs.sent]) (hjobs.trans hs.queued)

theorem andThen (h : Offered w w' task target result) (hs : SameTasks w' w'') (hl : Lasts w' w'') :
    Offered w w'' task target result := by
  cases result with
  | error e => exact SameTasks.trans h hs
  | ok u =>
    cases h with
    | here hsent hjobs => exact .here (hs.sent.trans hsent) (hs.queued.trans hjobs)
    | away tokens htok hsent hjobs =>
      exact .away tokens (htok.imp fun _ _ hid => hl.idOf? hid) (hs.sent.trans hsent)
        (hs.queued.trans hjobs)

theorem of_sent (h : Offered w w' task target result) {x : HandOff β} (hx : x ∈ handOffs w'.net.packets) :
    x ∈ handOffs w.net.packets ∨ x.body = task.body ∧ Tokened w' task.finishes x.tokens := by
  cases result with
  | error e => exact .inl (h.sent ▸ hx)
  | ok u =>
    cases h with
    | here hsent hjobs => exact .inl (hsent ▸ hx)
    | away tokens htok hsent hjobs =>
      rw [hsent] at hx
      refine (List.mem_append.mp hx).imp id fun hx => ?_
      rw [List.mem_singleton.mp hx]
      exact ⟨rfl, htok⟩

theorem of_queued (h : Offered w w' task target result) {job : Job β} (hj : job ∈ w'.jobs) :
    job ∈ w.jobs ∨ job.body = task.body ∧ job.finishes = task.finishes := by
  cases result with
  | error e => exact .inl (h.queued ▸ hj)
  | ok u =>
    cases h with
    | here hsent hjobs =>
      rw [hjobs] at hj
      refine (List.mem_append.mp hj).imp id fun hj => ?_
      rw [List.mem_singleton.mp hj]
      exact ⟨rfl, rfl⟩
    | away tokens htok hsent hjobs => exact .inl (hjobs ▸ hj)

end Offered

/-! ### Deliveries -/

/-- What a delivery does to the tasks: nothing, or the task that has come is queued, or its place was
never built. -/
inductive Fetched (w w' : World Pairwise β) (g g' : Ledger β) : Prop where
  | other : SameTasks w w' → g'.astray = g.astray → Fetched w w' g g'
  | queued (before h after accepted) : handOffs w.net.packets = before ++ h :: after →
      handOffs w'.net.packets = before ++ after → w'.jobs = w.jobs ++ [⟨h.dest, accepted, h.body⟩] →
      Tokened w' accepted h.tokens → g'.astray = g.astray → Fetched w w' g g'
  | stray (before h after) : handOffs w.net.packets = before ++ h :: after →
      handOffs w'.net.packets = before ++ after → w'.jobs = w.jobs →
      handOffs g'.astray = handOffs g.astray ++ [h] → Fetched w w' g g'

theorem Fetched.of_sent (h : Fetched w w' g g') {x : HandOff β}
    (hx : x ∈ handOffs w'.net.packets ++ handOffs g'.astray) :
    x ∈ handOffs w.net.packets ++ handOffs g.astray := by
  cases h with
  | other hsame ha => rwa [hsame.sent, ha] at hx
  | queued before h after accepted hp hsent hjobs htok ha =>
    rw [hsent, ha] at hx
    rw [hp]
    simp only [List.mem_append, List.mem_cons] at hx ⊢
    exact hx.imp (Or.imp_right .inr) id
  | stray before h after hp hsent hjobs ha =>
    rw [hsent, ha] at hx
    rw [hp]
    simp only [List.mem_append, List.mem_cons, List.not_mem_nil, or_false] at hx ⊢
    rcases hx with (hx | hx) | hx | rfl
    · exact .inl (.inl hx)
    · exact .inl (.inr (.inr hx))
    · exact .inr hx
    · exact .inl (.inr (.inl rfl))

theorem Fetched.of_queued (h : Fetched w w' g g') {job : Job β} (hj : job ∈ w'.jobs) :
    job ∈ w.jobs ∨ ∃ x ∈ handOffs w.net.packets, job.body = x.body ∧ Tokened w' job.finishes x.tokens := by
  cases h with
  | other hsame ha => exact .inl (hsame.queued ▸ hj)
  | queued before h after accepted hp hsent hjobs htok ha =>
    rw [hjobs] at hj
    refine (List.mem_append.mp hj).imp id fun hj => ?_
    rw [List.mem_singleton.mp hj]
    exact ⟨h, by simp [hp], rfl, htok⟩
  | stray before h after hp hsent hjobs ha => exact .inl (hjobs ▸ hj)

/-- Where a task is accepted under all its tokens, each instance that accepts is of the scope that its
token names. -/
theorem Consistent.tokened_acceptAll (hc : Consistent w g limbo [])
    {before after : List (Packet (Message β))} {sender dest : PlaceId} {body : β}
    (hp : w.net.packets = before ++ ⟨sender, dest, .handOff tokens body⟩ :: after)
    (hb : (w.withPackets (before ++ after)).Built dest) {accepted : List Serial}
    (ha : (w.withPackets (before ++ after)).acceptAll dest tokens = ((accepted, true), w')) :
    Tokened w' accepted tokens := by
  have hpk : ⟨sender, dest, .handOff tokens body⟩ ∈ w.net.packets := by simp [hp]
  have hu : ∀ tok ∈ tokens, (w.withPackets (before ++ after)).InUse tok.id := fun tok ht =>
    (hc.orderly.posted _ hpk).1 tok.id ⟨tok, ht, rfl⟩
  have hf : ∀ tok ∈ tokens, (w.withPackets (before ++ after)).Finds dest tok.id := fun tok ht =>
    (finds_congr rfl).mpr (hc.finds hpk dest tok ht)
  obtain ⟨accepted', w₂, hacc, hall⟩ :=
    acceptAll_front (hc.arrive hp fun _ => rfl).orderly hb hu hf
  have h2 := hall []
  rw [List.append_nil, ha] at h2
  simp only [World.acceptAll, List.append_nil, Prod.mk.injEq] at h2
  obtain ⟨⟨rfl, -⟩, rfl⟩ := h2
  exact hacc.tokened

theorem Consistent.fetched (hc : Consistent w g limbo []) {lane : Lane} (hw : w.deliver lane = some w') :
    Fetched w w' g (w.afterDelivery g lane) := by
  obtain ⟨before, pk, after, w₁, hp, -, ha, hct⟩ := hc.delivery hw
  have hsame := hct.toStill.sameTasks
  have hids : w'.idOf? = w₁.idOf? := (steady_of_alike hct.toAlike).ids
  -- a message that is no hand-off is taken without a task
  have hother : handOff? pk = none → SameTasks w (w.withPackets (before ++ after)) := fun hpk => by
    refine ⟨?_, rfl⟩
    rw [packets_withPackets, hp]
    simp [handOffs, hpk]
  generalize w.afterDelivery g lane = g' at ha ⊢
  cases ha with
  | stray sender dest tokens body =>
    refine .stray (handOffs before) ⟨dest, tokens, body⟩ (handOffs after) ?_ ?_ hsame.queued ?_
    · rw [hp, handOffs_append]
      rfl
    · rw [hsame.sent, packets_withPackets, handOffs_append]
    · rw [handOffs_append]
      rfl
  | task sender dest tokens body accepted w₂ hbuilt ho hps =>
    have hst := still_acceptAll (w.withPackets (before ++ after)) dest tokens
    rw [ho] at hst
    refine .queued (handOffs before) ⟨dest, tokens, body⟩ (handOffs after) accepted ?_ ?_ ?_ ?_ rfl
    · rw [hp, handOffs_append]
      rfl
    · rw [hsame.sent, ← handOffs_append, ← packets_withPackets w (before ++ after), ← hst.net]
      rfl
    · rw [hsame.queued]
      exact congrArg (· ++ _) hst.jobs
    · unfold Tokened
      rw [hids, (steady_of_alike (alike_enqueue w₂ _)).ids]
      exact hc.tokened_acceptAll hp hbuilt ho
  | report sender dest id deltas =>
    exact .other (((hother rfl).trans (still_receiveReport _ dest id deltas).sameTasks).trans hsame) rfl
  | failure sender id payload r i hne hi hid hip hr hl =>
    exact .other (((hother rfl).trans (sameTasks_deliverFailure _ id.home id payload)).trans hsame) rfl

/-! ### Loose tasks -/

/-- The tasks that no worker has taken up, each with its place. Those in `astray` have come to places
that were never built. -/
def loose (w : World Pairwise β) (astray : List (HandOff β)) : Multiset (PlaceId × β) :=
  ((handOffs w.net.packets ++ astray).map fun h => (h.dest, h.body) : List (PlaceId × β)) +
    (w.jobs.map fun job => (job.place, job.body) : List (PlaceId × β))

variable {astray : List (HandOff β)}

theorem SameTasks.loose (h : SameTasks w w') : w'.loose astray = w.loose astray := by
  unfold World.loose
  rw [h.sent, h.queued]

/-- A task that was offered, with its place, unless it was refused. -/
def unlessRefused (result : Except ScopeError Unit) (x : PlaceId × β) : Multiset (PlaceId × β) :=
  match result with
  | .ok _ => {x}
  | .error _ => 0

theorem mem_unlessRefused {result : Except ScopeError Unit} {x y : PlaceId × β}
    (h : x ∈ unlessRefused result y) : x = y := by
  cases result with
  | ok u => exact Multiset.mem_singleton.mp h
  | error e => exact absurd h (Multiset.notMem_zero x)

/-- One task more, wherever it stands in its list. -/
theorem coe_map_middle {σ τ : Type} (f : σ → τ) (before : List σ) (x : σ) (after : List σ) :
    ((before ++ x :: after).map f : Multiset τ) = f x ::ₘ ((before ++ after).map f : List τ) :=
  Multiset.coe_eq_coe.mpr (List.perm_middle.map f)

theorem Offered.loose {result : Except ScopeError Unit} (h : Offered w w' task target result) :
    w'.loose astray = unlessRefused result (target, task.body) + w.loose astray := by
  cases result with
  | error e => rw [SameTasks.loose h, unlessRefused, zero_add]
  | ok u =>
    unfold World.loose unlessRefused
    cases h with
    | here hsent hjobs =>
      rw [hsent, hjobs, coe_map_middle, List.append_nil, Multiset.add_cons, Multiset.singleton_add]
    | away tokens _ hsent hjobs =>
      rw [hsent, hjobs, List.append_assoc, List.singleton_append, coe_map_middle, Multiset.cons_add,
        Multiset.singleton_add]

/-- A worker takes up a task. -/
theorem loose_takeJob {k : ℕ} {job : Job β} (h : w.takeJob k = some (job, w'))
    (astray : List (HandOff β)) :
    w.loose astray = (job.place, job.body) ::ₘ w'.loose astray := by
  obtain ⟨hj, rfl⟩ := takeJob_eq h
  obtain ⟨hk, rfl⟩ := List.getElem?_eq_some_iff.mp hj
  have hperm := (List.getElem_cons_eraseIdx_perm hk).map fun job => (job.place, job.body)
  unfold World.loose
  rw [← Multiset.coe_eq_coe.mpr hperm, List.map_cons, ← Multiset.cons_coe, Multiset.add_cons]

theorem loose_fetched (h : Fetched w w' g g') :
    w'.loose (handOffs g'.astray) = w.loose (handOffs g.astray) := by
  unfold World.loose
  cases h with
  | other hsame ha => rw [hsame.sent, hsame.queued, ha]
  | queued before h after accepted hp hsent hjobs _ ha =>
    -- what leaves the messages is what comes last in the queues
    rw [hp, hsent, hjobs, ha, List.append_assoc before (h :: after), List.cons_append, coe_map_middle,
      coe_map_middle, List.append_nil, List.append_assoc, Multiset.add_cons, Multiset.cons_add]
  | stray before h after hp hsent hjobs ha =>
    rw [hp, hsent, hjobs, ha, List.append_assoc before (h :: after), List.cons_append,
      ← List.append_assoc, coe_map_middle, coe_map_middle, List.append_nil, List.append_assoc]

/-! ### Release -/

section Release

variable {r s : Serial} {i : Instance}

end Release

end World

/-! ### Ledgers -/

namespace Pool

variable {β : Type} {m : Pool β} {g : Ledger β}

theorem Kept.finish_astray (h : Kept m g) {b : Body} (hb : b ∈ m.running) (ending : Ending) :
    ∃ g', Kept (m.finish b ending) g' ∧ g'.astray = g.astray := by
  cases hx : Ended.entry? ⟨b, ending⟩ with
  | none => exact ⟨g, h.finish_well hb hx, rfl⟩
  | some e => exact ⟨_, h.finish_failed hb hx, rfl⟩

theorem Kept.tellAll (h : Kept m g) {fs : List Serial} {rest : Multiset Serial}
    (hc : m.closing = ↑fs + rest) :
    ∃ g', Kept { m with world := m.world.tellAll fs, closing := rest } g' ∧ g'.astray = g.astray := by
  induction fs generalizing m g with
  | nil =>
    rw [Multiset.coe_nil, zero_add] at hc
    subst hc
    exact ⟨g, h, rfl⟩
  | cons s fs ih =>
    have hs : m.closing = s ::ₘ (↑fs + rest) := by
      rw [hc, ← Multiset.cons_coe, Multiset.cons_add]
    have h1 := h.tell (hs ▸ Multiset.mem_cons_self ..)
    obtain ⟨g', h2, ha⟩ := ih h1 (by
      show m.closing.erase s = _
      rw [hs, Multiset.erase_cons_head])
    exact ⟨g', h2, ha⟩

theorem Kept.spawnAt (h : Kept m g) (task : Task β) {p target : PlaceId}
    (hs : ∀ s ∈ task.finishes, s ∈ m.untold ∧ (target = p → m.world.placeOf? s = some p)) :
    ∃ g', Kept { m with world := (m.world.spawnAt task p target).2 } g' ∧ g'.astray = g.astray := by
  obtain ⟨new, hh⟩ := World.hands_spawnAt h.run.consistent h.run.faithful fun htp s hx => (hs s hx).2 htp
  refine ⟨_, h.hands (.spawn _ _ task p target fun s hx => ⟨h.held ▸ (hs s hx).1, (hs s hx).2⟩) hh, ?_⟩
  unfold World.afterSpawn
  split <;> rfl

/-- The end of a task, in one go. -/
theorem Kept.complete (h : Kept m g) (job : Job β) (ending : Ending)
    (hb : ⟨job.place, job.finishes⟩ ∈ m.running) :
    ∃ g', Kept { m with
      world := m.world.complete job (ending.failure? job.place)
      running := m.running.erase ⟨job.place, job.finishes⟩
      ended := m.ended ++ [⟨⟨job.place, job.finishes⟩, ending⟩] } g' ∧ g'.astray = g.astray := by
  obtain ⟨g₁, h1, ha1⟩ := h.finish_astray hb ending
  obtain ⟨g₂, h2, ha2⟩ := h1.tellAll (rfl : _ = ↑job.finishes + m.closing)
  refine ⟨g₂, h2.elsewhere ?_ ?_, ha2.trans ha1⟩
  · exact World.alike_modifySite _ job.place
      (fun site => { site with stats := site.stats.complete }) fun _ => rfl
  · exact World.still_modifySite _ _ _

/-- The end of the body of a scope, in one go. -/
theorem Kept.endBody (h : Kept m g) (p : PlaceId) (s : Serial) (ending : Ending)
    (hb : ⟨p, [s]⟩ ∈ m.running) :
    ∃ g', Kept { m with
      world := m.world.endBody s (ending.failure? p)
      running := m.running.erase ⟨p, [s]⟩
      ended := m.ended ++ [⟨⟨p, [s]⟩, ending⟩] } g' ∧ g'.astray = g.astray := by
  obtain ⟨g₁, h1, ha1⟩ := h.finish_astray hb ending
  obtain ⟨g₂, h2, ha2⟩ := h1.tellAll (rfl : _ = ↑[s] + m.closing)
  have hw : (m.world.capture [s] (ending.failure? p)).tellAll [s] =
      m.world.endBody s (ending.failure? p) := by
    cases ending.failure? p <;> rfl
  refine ⟨g₂, ?_, ha2.trans ha1⟩
  rw [← hw]
  exact h2

end Pool

end Quiescence
