/-
# Scopes within scopes

A `Nest` is a run of a `Pool` in which it is told which body opened a scope and
waits for it. A body that waits does not end, so it keeps what it is registered
with open. A scope is opened from outside all bodies, or by a body of an older
scope.

* `Proper`: the invariant. Each root has been left or is open, and is then
  outermost or opened by a body of an older scope that waits for it.
* `outermost_of_opened`: so while a scope is open, an outermost one is.
* `nothing_remains`: nothing is left of the scopes that were left, reports and
  failures find their root, and where no outermost scope is open no place binds
  anything.
-/
import Quiescence.Proofs.Departures
import Quiescence.Proofs.Wakes

namespace Quiescence

/-- A registry that binds no identity is empty. -/
theorem Registry.bindings_eq_nil {α : Type} {r : Registry α} (h : ∀ id, r.get? id = none) :
    r.bindings = [] := by
  cases hb : r.bindings with
  | nil => rfl
  | cons b bs =>
    have := h b.1
    simp [Registry.get?, hb] at this

namespace World

variable {β : Type} {w w' : World Pairwise β} {g : Ledger β} {r s : Serial}

theorem IsRoot.lt (h : w.IsRoot s) : s < w.instances.length := by
  obtain ⟨i, hi, -⟩ := h
  exact serial_lt hi

theorem Keeps.idOf? (h : Keeps w w') {id : GlobalId} (hs : w.idOf? s = some id) :
    w'.idOf? s = some id := by
  obtain ⟨i, hi, hid⟩ := Option.bind_eq_some_iff.mp hs
  obtain ⟨j, hj, hij⟩ := h.old s i hi
  rw [idOf?_eq hj, hij.id id hid]

/-- The roots are those that there were. -/
theorem Keeps.isRoot_iff (h : Keeps w w') : w'.IsRoot s ↔ w.IsRoot s := by
  constructor
  · rintro ⟨j, hj, hr⟩
    cases hi : w.instance? s with
    | none => exact absurd hr (h.new s j hi hj)
    | some i =>
      obtain ⟨x, hx, hix⟩ := h.old s i hi
      obtain rfl : j = x := Option.some.inj (hj.symm.trans hx)
      exact ⟨i, hi, hix.remoteId.symm.trans hr⟩
  · rintro ⟨i, hi, hr⟩
    obtain ⟨j, hj, hij⟩ := h.old s i hi
    exact ⟨j, hj, hij.remoteId.trans hr⟩

/-- Each instance is of the scope of some root. -/
theorem Consistent.exists_root {limbo : Multiset (Serial × PlaceId)}
    {arrived : List (Packet (Message β))} (h : Consistent w g limbo arrived)
    (hs : (w.instance? s).isSome) : ∃ r, w.IsRoot r ∧ w.Akin r s := by
  obtain ⟨i, hi⟩ := Option.isSome_iff_exists.mp hs
  cases hr : i.remoteId? with
  | none => exact ⟨s, ⟨i, hi, hr⟩, .refl w s⟩
  | some id =>
    have hid : w.idOf? s = some id := by rw [idOf?_eq hi, (Instance.remoteId?_eq_some.mp hr).1]
    obtain ⟨r, x, hx, hxid, -, hxr⟩ := (h.named.rooted s id hid).root
    exact ⟨r, ⟨x, hx, hxr⟩, (akin_iff hid).mpr (by rw [idOf?_eq hx, hxid])⟩

theorem isRoot_openScope_iff (w : World Pairwise β) (p : PlaceId) (kind : ScopeKind) :
    IsRoot (w.openScope p kind).2 s ↔ s = w.instances.length ∨ w.IsRoot s := by
  have hinst : (w.openScope p kind).2.instance? s = if s = w.instances.length then some _ else
    w.instance? s := instance?_addInstance w _ s
  unfold IsRoot
  rw [hinst]
  split_ifs with hs
  · exact ⟨fun _ => .inl hs, fun _ => ⟨_, rfl, rfl⟩⟩
  · exact ⟨.inr, fun h => h.resolve_left hs⟩

end World

namespace Pool

variable {β : Type} {m m' : Pool β} {g : Ledger β}

namespace Work

theorem left (h : Work m m') : m'.left = m.left := by
  cases h <;> rfl

/-- Bodies begin, and none ends. -/
theorem running_le (h : Work m m') : m.running ≤ m'.running := by
  cases h with
  | take n job w ht => exact Multiset.le_cons_self _ _
  | _ => exact le_rfl

theorem keeps (h : Work m m') (hk : Kept m g) : World.Keeps m.world m'.world := by
  have hc := hk.run.consistent
  have hsame : ∀ {w : World Pairwise β}, w.instance? = m.world.instance? → World.Keeps m.world w :=
    fun hw => (World.Rests.of_instances hw).toKeeps
  cases h with
  | spawn task p target hs =>
    exact (hc.rests_spawnAt (fun s hx => hk.held ▸ (hs s hx).1) p target).toKeeps
  | take n job w ht =>
    obtain ⟨-, rfl⟩ := World.takeJob_eq ht
    exact hsame rfl
  | tell s hs =>
    rcases hc.tells (hk.held_of_closing hs) with hrest | ⟨i, j, hf, -⟩
    · exact hrest.toKeeps
    · exact hf.keeps
  | deliver lane w hw =>
    rcases hc.delivers hw with hrest | ⟨r, i, j, hf, -⟩
    · exact hrest.toKeeps
    · exact hf.keeps
  | kill p w hw =>
    cases hw
    exact hsame rfl
  | resize known hk => exact hsame rfl
  | elsewhere w ha hw => exact hsame ha.instance?

end Work

/-- The end of a body changes no identity. -/
theorem Kept.keeps_finish (hk : Kept m g) {b : Body} (hb : b ∈ m.running) (ending : Ending) :
    World.Keeps m.world (m.finish b ending).world := by
  have hrefl := (World.Rests.refl m.world).toKeeps
  unfold Pool.finish World.capture
  split
  · rename_i f s fs hf hfs
    have hs : s ∈ b.finishes := hfs ▸ List.mem_cons_self ..
    exact (hk.run.consistent.rests_fail (hk.held_of_running hb hs) f).toKeeps
  · exact hrefl

end Pool

/-- A run in which bodies open scopes and wait for them. -/
structure Nest (β : Type) where
  pool : Pool β
  /-- The scopes that have not been left, each with the body that waits for it unless it was opened
  from outside. -/
  opened : Multiset (Serial × Option Body)

namespace Nest

variable {β : Type}

/-- Some places with nothing going on. -/
def start (places : ℕ) (kind : ScopeKind) (spins : ℕ) : Nest β := ⟨.start places kind spins, 0⟩

def waiting (n : Nest β) : Multiset Body := n.opened.filterMap Prod.snd

/-- The bodies that go on. -/
def awake (n : Nest β) : Multiset Body := n.pool.running - n.waiting

inductive Step : Nest β → Nest β → Prop where
  /-- A scope is opened, from outside or by a body that goes on and is governed by a scope. -/
  | openScope (n p kind outer) : n.pool.world.Built p →
      (∀ b, outer = some b → b ∈ n.awake ∧ b.finishes ≠ []) →
      Step n
        { pool := { n.pool with
            world := (n.pool.world.openScope p kind).2
            running := ⟨p, [n.pool.world.instances.length]⟩ ::ₘ n.pool.running }
          opened := (n.pool.world.instances.length, outer) ::ₘ n.opened }
  | finish (n b ending) : b ∈ n.awake → Step n { n with pool := n.pool.finish b ending }
  /-- A scope that is released is left, and the body that opened it goes on. -/
  | leave (n r outer i) : (r, outer) ∈ n.opened → n.pool.world.instance? r = some i →
      i.remoteId? = none → i.isReleasable = true →
      Step n
        { pool := { n.pool with world := (n.pool.world.leave r).2, left := r :: n.pool.left }
          opened := n.opened.erase (r, outer) }
  | work (n m) : n.pool.Work m → Step n { n with pool := m }

inductive Reachable : Nest β → Prop where
  | start (places kind spins) : places ≤ UInt32.size → Reachable (start places kind spins)
  | step {n n'} : Reachable n → Step n n' → Reachable n'

variable {n n' : Nest β} {g : Ledger β} {s : Serial} {outer : Option Body} {b : Body}

theorem running_of_awake (h : b ∈ n.awake) : b ∈ n.pool.running :=
  Multiset.mem_of_le (Multiset.sub_le_self _ _) h

theorem Step.pool (h : Step n n') : Pool.Step n.pool n'.pool := by
  cases h with
  | openScope p kind outer hp ho => exact .openScope n.pool p kind hp
  | finish b ending hb => exact .finish n.pool b ending (running_of_awake hb)
  | leave r outer i hm hi hr hz => exact .leave n.pool r i hi hr hz
  | work m hm => exact hm.step

theorem Reachable.pool (h : Reachable n) : n.pool.Reachable := by
  induction h with
  | start places kind spins hp => exact .start places kind spins hp
  | step _ hs ih => exact ih.step hs.pool

/-- Any number of steps. -/
abbrev Steps : Nest β → Nest β → Prop := Relation.ReflTransGen Step

theorem Reachable.steps (h : Reachable n) (hs : Steps n n') : Reachable n' := by
  induction hs with
  | refl => exact h
  | tail _ hs ih => exact ih.step hs

theorem steps_of_works {m : Pool β} (h : Pool.Works n.pool m) : Steps n { n with pool := m } :=
  Relation.ReflTransGen.lift (fun m => ({ n with pool := m } : Nest β)) (fun _ m hm => .work _ m hm) _ _ h

theorem steps_complete (n : Nest β) (job : Job β) (ending : Ending)
    (hb : ⟨job.place, job.finishes⟩ ∈ n.awake) :
    Steps n { n with pool := { n.pool with
      world := n.pool.world.complete job (ending.failure? job.place)
      running := n.pool.running.erase ⟨job.place, job.finishes⟩
      ended := n.pool.ended ++ [⟨⟨job.place, job.finishes⟩, ending⟩] } } :=
  .head (.finish n _ ending hb) (steps_of_works (Pool.works_complete n.pool job ending))

theorem steps_endBody (n : Nest β) (p : PlaceId) (s : Serial) (ending : Ending)
    (hb : ⟨p, [s]⟩ ∈ n.awake) :
    Steps n { n with pool := { n.pool with
      world := n.pool.world.endBody s (ending.failure? p)
      running := n.pool.running.erase ⟨p, [s]⟩
      ended := n.pool.ended ++ [⟨⟨p, [s]⟩, ending⟩] } } :=
  .head (.finish n _ ending hb) (steps_of_works (Pool.works_endBody n.pool p s ending))

/-! ### Who waits for what -/

/-- The scopes that are open and those that were left. -/
def scopes (n : Nest β) : Multiset Serial := n.opened.map Prod.fst + n.pool.left

/-- The roots are the scopes, each open or left and not both; one that a body opened is younger than
the root of a scope that the body is registered with; and bodies that wait run. -/
structure Proper (n : Nest β) : Prop where
  roots : ∀ s, n.pool.world.IsRoot s ↔ s ∈ n.scopes
  once : n.scopes.Nodup
  inner : ∀ s b, (s, some b) ∈ n.opened →
    ∃ r < s, n.pool.world.IsRoot r ∧ ∃ t ∈ b.finishes, n.pool.world.Akin r t
  waiting : n.waiting ≤ n.pool.running

namespace Proper

theorem isRoot (h : Proper n) (hs : (s, outer) ∈ n.opened) : n.pool.world.IsRoot s :=
  (h.roots s).mpr (Multiset.mem_add.mpr (.inl (Multiset.mem_map_of_mem Prod.fst hs)))

theorem not_left (h : Proper n) (hs : (s, outer) ∈ n.opened) : s ∉ n.pool.left := fun hl =>
  Multiset.disjoint_left.mp (Multiset.nodup_add.mp h.once).2.2 (Multiset.mem_map_of_mem Prod.fst hs) hl

theorem opened (h : Proper n) (hs : n.pool.world.IsRoot s) (hl : s ∉ n.pool.left) :
    ∃ outer, (s, outer) ∈ n.opened := by
  obtain ⟨⟨_, outer⟩, hm, rfl⟩ :=
    Multiset.mem_map.mp ((Multiset.mem_add.mp ((h.roots s).mp hs)).resolve_right hl)
  exact ⟨outer, hm⟩

/-- A body that goes on is another than those that wait. -/
theorem cons_waiting (h : Proper n) (hb : b ∈ n.awake) : b ::ₘ n.waiting ≤ n.pool.running := by
  have hle := add_le_add_left (Multiset.singleton_le.mpr hb) n.waiting
  rwa [Multiset.singleton_add, awake, tsub_add_cancel_of_le h.waiting] at hle

/-- No scope is opened. -/
theorem keeps (h : Proper n) (hk : World.Keeps n.pool.world n'.pool.world) (hs : n'.scopes = n.scopes)
    (ho : n'.opened ≤ n.opened) (hw : n'.waiting ≤ n'.pool.running) : Proper n' where
  roots s := by rw [hk.isRoot_iff, h.roots, hs]
  once := hs ▸ h.once
  inner s b hm := by
    obtain ⟨r, hrs, hr, t, ht, hak⟩ := h.inner s b (Multiset.mem_of_le ho hm)
    exact ⟨r, hrs, hk.isRoot_iff.mpr hr, t, ht, hak.of_ids fun _ _ => hk.idOf?⟩
  waiting := hw

theorem openScope (h : Proper n) (hk : Pool.Kept n.pool g) {p : PlaceId} (kind : ScopeKind)
    (ho : ∀ b, outer = some b → b ∈ n.awake ∧ b.finishes ≠ []) :
    Proper
      { pool := { n.pool with
          world := (n.pool.world.openScope p kind).2
          running := ⟨p, [n.pool.world.instances.length]⟩ ::ₘ n.pool.running }
        opened := (n.pool.world.instances.length, outer) ::ₘ n.opened } where
  roots s := by
    rw [World.isRoot_openScope_iff, h.roots]
    simp [scopes]
  once := by
    have hnew : n.pool.world.instances.length ∉ n.scopes := fun hm => ((h.roots _).mpr hm).lt.false
    simpa [scopes] using Multiset.nodup_cons.mpr ⟨hnew, h.once⟩
  inner s b hs := by
    have hc := hk.run.consistent
    have hg := World.grows_openScope n.pool.world p kind
    suffices hold : ∃ r < s, n.pool.world.IsRoot r ∧ ∃ t ∈ b.finishes, n.pool.world.Akin r t by
      obtain ⟨r, hrs, hr, t, ht, hak⟩ := hold
      exact ⟨r, hrs, hg.isRoot hr, t, ht, hak.of_ids fun _ _ => hg.idOf?⟩
    rcases Multiset.mem_cons.mp hs with hnew | hs
    · obtain ⟨rfl, rfl⟩ := Prod.mk.inj hnew
      obtain ⟨hb, hne⟩ := ho b rfl
      obtain ⟨t, ht⟩ := List.exists_mem_of_ne_nil _ hne
      obtain ⟨r, hr, hak⟩ :=
        hc.exists_root (hc.tidy.made t (hk.held_of_running (running_of_awake hb) ht))
      exact ⟨r, hr.lt, hr, t, ht, hak⟩
    · exact h.inner s b hs
  waiting := by
    refine le_trans ?_ (Multiset.le_cons_self _ _)
    unfold Nest.waiting
    cases outer with
    | none =>
      rw [Multiset.filterMap_cons_none _ _ rfl]
      exact h.waiting
    | some b =>
      rw [Multiset.filterMap_cons_some Prod.snd (_, some b) n.opened rfl]
      exact h.cons_waiting (ho b rfl).1

theorem step (h : Proper n) (hk : Pool.Kept n.pool g) (hs : Step n n') : Proper n' := by
  cases hs with
  | openScope p kind outer hp ho => exact h.openScope hk kind ho
  | finish b ending hb =>
    refine h.keeps (hk.keeps_finish (running_of_awake hb) ending) rfl le_rfl ?_
    have hle := Multiset.erase_le_erase b (h.cons_waiting hb)
    rwa [Multiset.erase_cons_head] at hle
  | leave r outer i hm hi hr hz =>
    have hle := Multiset.erase_le (r, outer) n.opened
    refine h.keeps (World.rests_leave hi).toKeeps ?_ hle
      (le_trans (Multiset.filterMap_le_filterMap _ hle) h.waiting)
    unfold scopes
    conv_rhs => rw [← Multiset.cons_erase hm]
    simp [← Multiset.cons_coe]
  | work m hm =>
    refine h.keeps (hm.keeps hk) ?_ le_rfl (h.waiting.trans hm.running_le)
    unfold scopes
    rw [hm.left]

end Proper

theorem Reachable.proper (h : Reachable n) : Proper n := by
  induction h with
  | start places kind spins hp =>
    refine ⟨fun s => ⟨fun ⟨i, hi, _⟩ => ?_, fun hs => ?_⟩, ?_, ?_, Multiset.zero_le _⟩
    · simp [Nest.start, Pool.start, World.start, World.instance?] at hi
    · simp [scopes, Nest.start, Pool.start] at hs
    · simp [scopes, Nest.start, Pool.start]
    · simp [Nest.start]
  | step hr hs ih =>
    obtain ⟨g, hk⟩ := hr.pool.kept
    exact ih.step hk hs

/-- While a scope is open, an outermost one is: the body that opened it is registered with an older
scope, which it keeps open. -/
theorem Proper.outermost_of_opened (h : Proper n) (hk : Pool.Kept n.pool g)
    (hs : (s, outer) ∈ n.opened) : ∃ r, (r, none) ∈ n.opened := by
  induction s using Nat.strong_induction_on generalizing outer with
  | _ s ih =>
    cases outer with
    | none => exact ⟨s, hs⟩
    | some b =>
      obtain ⟨r, hrs, ⟨i, hi, hr⟩, t, ht, hak⟩ := h.inner s b hs
      have hb : b ∈ n.pool.running :=
        Multiset.mem_of_le h.waiting ((Multiset.mem_filterMap _ _).mpr ⟨_, hs, rfl⟩)
      have hopen : r ∉ n.pool.left := hk.left ▸
        hk.run.consistent.open_of_held hi hr hak (hk.held_of_running hb ht)
      obtain ⟨o, ho⟩ := h.opened ⟨i, hi, hr⟩ hopen
      exact ih r hrs ho

/-! ### What is left -/

theorem Reachable.gone (h : Reachable n) (hs : s ∈ n.pool.left) : World.Gone n.pool.world s := by
  obtain ⟨g, hk⟩ := h.pool.kept
  exact hk.run.vacant.gone hk.run.consistent (fun job hj t ht => hk.held_of_queued hj ht)
    (hk.left ▸ hs)

theorem Reachable.lookup_root (h : Reachable n) {pk : Packet (Message β)}
    (hpk : pk ∈ n.pool.world.net.packets) {id : GlobalId} (hid : pk.content.rootId? = some id) :
    ∃ r i, n.pool.world.lookup pk.dest id = .ok r ∧ n.pool.world.instance? r = some i ∧
      i.id = some id ∧ i.remoteId? = none := by
  obtain ⟨g, hk⟩ := h.pool.kept
  exact hk.run.consistent.lookup_root hpk hid

/-- What a place binds belongs to a scope that is open, so an outermost one is. -/
theorem Reachable.unbound (h : Reachable n) (hnone : ∀ r, (r, none) ∉ n.opened) {p : PlaceId}
    {site : Site} (hp : n.pool.world.site? p = some site) : site.identities.bindings = [] := by
  obtain ⟨g, hk⟩ := h.pool.kept
  refine Registry.bindings_eq_nil fun id => ?_
  by_contra hb
  obtain ⟨b, hb⟩ := Option.ne_none_iff_exists'.mp hb
  have hbound : n.pool.world.bound? p id = some b := by
    rw [World.bound?, hp]
    exact hb
  obtain ⟨r, i, hi, hr, -, hopen⟩ :=
    hk.run.vacant.open_of_bound hk.run.consistent hbound
  obtain ⟨outer, ho⟩ := h.proper.opened ⟨i, hi, hr⟩ (hk.left ▸ hopen)
  obtain ⟨r', hr'⟩ := h.proper.outermost_of_opened hk ho
  exact hnone r' hr'

/-- Nothing is left of a scope that was left. So reports and failures on their way find their root,
and when no outermost scope is open the registries are empty. -/
theorem nothing_remains (h : Reachable n) :
    (∀ r ∈ n.pool.left, World.Gone n.pool.world r) ∧
    (∀ pk ∈ n.pool.world.net.packets, ∀ id, pk.content.rootId? = some id →
      ∃ r i, n.pool.world.lookup pk.dest id = .ok r ∧ n.pool.world.instance? r = some i ∧
        i.id = some id ∧ i.remoteId? = none) ∧
    ((∀ r, (r, none) ∉ n.opened) → ∀ p site, n.pool.world.site? p = some site →
      site.identities.bindings = []) :=
  ⟨fun _ hr => h.gone hr, fun _ hpk _ hid => h.lookup_root hpk hid,
    fun hnone _ _ hp => h.unbound hnone hp⟩

/-- A task of a scope at place 0 opens a scope at place 1, of which a task at place 0 panics. The
last report finds the root of the outer scope; then both scopes are left, and are gone. -/
theorem nothing_remains_nested : ∃ n n' : Nest Unit, n.Reachable ∧ n'.Reachable ∧
    (∃ pk ∈ n.pool.world.net.packets, ∃ id r i, pk.content.rootId? = some id ∧
      n.pool.world.lookup pk.dest id = .ok r ∧ n.pool.world.instance? r = some i ∧
      i.id = some id ∧ i.remoteId? = none) ∧
    n'.pool.left = [0, 2] ∧ n'.opened = 0 ∧ n'.pool.world.idOf? 0 = some ⟨⟨0⟩, 0⟩ ∧
    n'.pool.world.idOf? 2 = some ⟨⟨1⟩, 0⟩ ∧ World.Gone n'.pool.world 0 ∧
    World.Gone n'.pool.world 2 ∧
    ∀ p site, n'.pool.world.site? p = some site → site.identities.bindings = [] := by
  have h0 : Reachable (start 2 .plain 0 : Nest Unit) := .start 2 .plain 0 (by decide)
  have h1 := h0.step (.openScope _ ⟨0⟩ .plain none rfl nofun)
  have h2 := h1.step (.work _ _ (.spawn _ ⟨[0], ⟨0⟩, ()⟩ ⟨0⟩ ⟨1⟩ (by decide)))
  have h3 := h2.step (.work _ _ (.deliver _ ⟨some ⟨0⟩, ⟨1⟩⟩ _ rfl))
  have h4 := h3.step (.work _ _ (.take _ 0 ⟨⟨1⟩, [1], ()⟩ _ rfl))
  have h5 := h4.step (.openScope _ ⟨1⟩ .plain (some ⟨⟨1⟩, [1]⟩) rfl (by
    rintro _ ⟨⟩
    decide))
  have h6 := h5.step (.work _ _ (.spawn _ ⟨[2], ⟨1⟩, ()⟩ ⟨1⟩ ⟨0⟩ (by decide)))
  have h7 := h6.steps (steps_endBody _ ⟨1⟩ 2 .well (by decide))
  have h8 := h7.step (.work _ _ (.deliver _ ⟨some ⟨1⟩, ⟨0⟩⟩ _ rfl))
  have h9 := h8.step (.work _ _ (.take _ 0 ⟨⟨0⟩, [3], ()⟩ _ rfl))
  have h10 := h9.steps (steps_complete _ ⟨⟨0⟩, [3], ()⟩ (.panicked .opaquely) (by decide))
  have h11 := h10.step (.work _ _ (.deliver _ ⟨some ⟨0⟩, ⟨1⟩⟩ _ rfl))
  have h12 := h11.step (.work _ _ (.deliver _ ⟨some ⟨0⟩, ⟨1⟩⟩ _ rfl))
  have h13 := h12.step (.leave _ 2 (some ⟨⟨1⟩, [1]⟩) _ (by decide) rfl rfl rfl)
  have h14 := h13.steps (steps_complete _ ⟨⟨1⟩, [1], ()⟩ .well (by decide))
  have h15 := h14.steps (steps_endBody _ ⟨0⟩ 0 .well (by decide))
  have h16 := h15.step (.work _ _ (.deliver _ ⟨some ⟨1⟩, ⟨0⟩⟩ _ rfl))
  have h17 := h16.step (.leave _ 0 none _ (by decide) rfl rfl rfl)
  obtain ⟨n, hn, hp⟩ : ∃ n : Nest Unit, n.Reachable ∧
      n.pool.world.net.packets = [⟨⟨1⟩, ⟨0⟩, .report ⟨⟨0⟩, 0⟩ [0, -1]⟩] := ⟨_, h15, rfl⟩
  have hpk := hp ▸ List.mem_singleton_self (Packet.mk _ _ _)
  obtain ⟨r, i, hl, hi, hid, hr⟩ := (nothing_remains hn).2.1 _ hpk _ rfl
  obtain ⟨hgone, -, hempty⟩ := nothing_remains h17
  exact ⟨n, _, hn, h17, ⟨_, hpk, _, r, i, rfl, hl, hi, hid, hr⟩, rfl, rfl, rfl, rfl,
    hgone 0 (by decide), hgone 2 (by decide), hempty nofun⟩

end Nest

end Quiescence
