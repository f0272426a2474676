/-
# The net tally of a scope

What a scope is owed at a place is spread over its instances: the root has a
tally, reports are on their way, and other instances have something to report.
Their sum, the *net tally*, is what the root will come to hold if nothing more
happens; if it is zero everywhere, the scope is released in the end.

An operation on one instance changes the net tally of its scope at one place,
and leaves that of every other scope alone.

* `Amends.netTally`: by what an instance changes, its scope does.
* `netTally_spawnAll`, `netTally_submitAll`, `netTally_tellAll`: a task is
  charged to each of its scopes at the place it is meant for, and taken off at
  the places where the instances are.
* `netTally_prepareAll`, `netTally_accept`: names and acceptances change nothing.
-/
import Mathlib.Algebra.BigOperators.Group.List.Basic
import Quiescence.Proofs.Departures
import Quiescence.Proofs.Operations

namespace Quiescence

/-- What an instance away from home has not reported yet to the scope with an identity, of the place
at position `k`. -/
def Instance.owed (id? : Option GlobalId) (k : ℕ) (i : Instance) : ℤ :=
  if i.remoteId?.isSome ∧ i.remoteId? = id? then i.counters.unreported k else 0

theorem Instance.owed_home {i : Instance} (hr : i.remoteId? = none) (id? : Option GlobalId) (k : ℕ) :
    i.owed id? k = 0 := by
  simp [owed, hr]

theorem Instance.owed_away {i : Instance} {id : GlobalId} (hr : i.remoteId? = some id)
    (id? : Option GlobalId) (k : ℕ) :
    i.owed id? k = if some id = id? then i.counters.unreported k else 0 := by
  simp [owed, hr]

namespace World

variable {β : Type} {w w' : World Pairwise β} {g : Ledger β} {r s t : Serial} {i j x : Instance}
  {p target : PlaceId} {id : GlobalId} {fs : List Serial} {tok : Token} {tokens : List Token}
  {v : ℕ → ℤ} {sent : List (Packet (Message β))}

/-- What the root holds of the place at position `k`, with the reports on their way and what the
other instances have not reported. -/
def netTally (w : World Pairwise β) (r : Serial) (k : ℕ) : ℤ :=
  match w.instance? r with
  | none => 0
  | some i => i.counters.tally i.place k + totalDelta (reportsOf i.id w.net.packets) k +
      w.unreportedOf i.id k

theorem netTally_eq (hi : w.instance? r = some i) (k : ℕ) : w.netTally r k =
    i.counters.tally i.place k + totalDelta (reportsOf i.id w.net.packets) k +
      w.unreportedOf i.id k := by
  simp [netTally, hi]

/-! ### What is owed -/

theorem unreportedOf_eq (w : World Pairwise β) (id? : Option GlobalId) (k : ℕ) :
    w.unreportedOf id? k = (w.instances.map (Instance.owed id? k)).sum := rfl

theorem unreportedOf_set (hi : w.instance? s = some i)
    (hnew : ∀ t, w'.instance? t = if t = s then some j else w.instance? t)
    (id? : Option GlobalId) (k : ℕ) :
    w'.unreportedOf id? k = w.unreportedOf id? k + (j.owed id? k - i.owed id? k) := by
  obtain ⟨hs, hget⟩ := List.getElem?_eq_some_iff.mp hi
  have hlist : w'.instances = w.instances.set s j := List.ext_getElem? fun t => by
    rw [List.getElem?_set]
    refine (hnew t).trans ?_
    by_cases hts : t = s
    · subst hts
      simp [hs]
    · rw [if_neg hts, if_neg (Ne.symm hts)]
      rfl
  rw [unreportedOf_eq, unreportedOf_eq, hlist, List.map_set, List.sum_set',
    dif_pos (by rwa [List.length_map]), List.getElem_map, hget]
  omega

theorem unreportedOf_add (ha : Adds w w' j) (id? : Option GlobalId) (k : ℕ) :
    w'.unreportedOf id? k = w.unreportedOf id? k + j.owed id? k := by
  have hlist : w'.instances = w.instances ++ [j] := List.ext_getElem? fun t =>
    (ha.new t).trans (instance?_addInstance w j t).symm
  rw [unreportedOf_eq, unreportedOf_eq, hlist, List.map_append, List.sum_append, List.map_singleton,
    List.sum_singleton]

/-- Messages for the root of another scope report nothing of this one. -/
theorem reportsOf_other {id? : Option GlobalId} {pks : List (Packet (Message β))}
    (h : ∀ pk ∈ pks, ∃ id, pk.content.rootId? = some id ∧ some id ≠ id?) : reportsOf id? pks = [] := by
  unfold reportsOf
  rw [List.filterMap_eq_nil_iff]
  intro pk hpk
  obtain ⟨id, hid, hne⟩ := h pk hpk
  cases hm : pk.content with
  | handOff tokens body => rfl
  | failure id' payload => rfl
  | report id' deltas =>
    rw [hm] at hid
    cases hid
    simp [Message.deltas?, hne]

/-- What nobody speaks of is not reported. -/
theorem reportsOf_unused (ho : Orderly w) (hid : ¬ w.InUse id) :
    reportsOf (some id) w.net.packets = [] := by
  unfold reportsOf
  rw [List.filterMap_eq_nil_iff]
  intro pk hpk
  cases hm : pk.content with
  | handOff tokens body => rfl
  | failure id' payload => rfl
  | report id' deltas =>
    refine Option.map_eq_none_iff.mpr (if_neg fun he => hid ?_)
    cases he
    exact (ho.posted pk hpk).1 id (by rw [hm]; rfl)

/-! ### Moves -/

/-- What an instance changes by, its scope does, and no other. -/
theorem Amends.netTally (h : Amends w w' s i j v sent) (ho : Orderly w) (hr : w.IsRoot r) (k : ℕ) :
    w'.netTally r k = w.netTally r k + if w.Akin r s then v k else 0 := by
  obtain ⟨x, hx, hxr⟩ := hr
  have hun := unreportedOf_set h.old h.new
  by_cases hrs : r = s
  · subst hrs
    obtain rfl : i = x := Option.some.inj (h.old.symm.trans hx)
    have hsent : sent = [] := List.eq_nil_iff_forall_not_mem.mpr fun pk hpk => by
      obtain ⟨id, hid, -⟩ := h.sent pk hpk
      rw [hxr] at hid
      cases hid
    have hj : w'.instance? r = some j := by rw [h.new, if_pos rfl]
    rw [netTally_eq hj, netTally_eq hx, h.place, h.id, (h.home hxr (ho.exact r i hx hxr)).2,
      h.packets, hsent, hun, Instance.owed_home hxr, Instance.owed_home (h.remoteId?.trans hxr),
      if_pos (.refl w r), List.append_nil, Pi.add_apply]
    omega
  · have hx' : w'.instance? r = some x := by rw [h.new, if_neg hrs, hx]
    rw [netTally_eq hx', netTally_eq hx, h.packets, hun, reportsOf_append, totalDelta_append,
      Pi.add_apply]
    by_cases hak : w.Akin r s
    · obtain ⟨id, hxid, hir⟩ := ho.away_of_akin hx hxr h.old (Ne.symm hrs) hak
      have hv := congrFun (h.away id hir) k
      rw [Pi.add_apply, Pi.add_apply] at hv
      rw [if_pos hak, hxid, Instance.owed_away hir, Instance.owed_away (h.remoteId?.trans hir),
        if_pos rfl, if_pos rfl]
      linarith
    · rw [if_neg hak]
      -- the instance reports to another scope, if to any
      have hother : ∀ id, i.remoteId? = some id → some id ≠ x.id := fun id hid he => hak <| by
        rw [akin_iff (by rw [idOf?_eq h.old, (Instance.remoteId?_eq_some.mp hid).1]), idOf?_eq hx, he]
      have hsent : reportsOf x.id sent = [] := reportsOf_other fun pk hpk => by
        obtain ⟨id, hid, hroot, -⟩ := h.sent pk hpk
        exact ⟨id, hroot, hother id hid⟩
      have howed : j.owed x.id k = 0 ∧ i.owed x.id k = 0 := by
        cases hir : i.remoteId? with
        | none =>
          exact ⟨Instance.owed_home (h.remoteId?.trans hir) _ _, Instance.owed_home hir _ _⟩
        | some id =>
          rw [Instance.owed_away hir, Instance.owed_away (h.remoteId?.trans hir),
            if_neg (hother id hir), if_neg (hother id hir)]
          exact ⟨rfl, rfl⟩
      rw [hsent, howed.1, howed.2, totalDelta_nil, Pi.zero_apply]
      omega

/-- An identity that nobody has used comes with no debts. -/
theorem Roots.netTally (hc : Roots w w' s i id) (ho : Orderly w) (hr : w.IsRoot r) (k : ℕ) :
    w'.netTally r k = w.netTally r k := by
  obtain ⟨x, hx, hxr⟩ := hr
  have hi : i.remoteId? = none := by rw [Instance.remoteId?, hc.unnamed]; rfl
  have hj : ({ i with id := some id } : Instance).remoteId? = none :=
    Instance.remoteId?_eq_none.mpr fun id' hid' => by cases hid'; exact hc.home
  have hun : ∀ id?, w'.unreportedOf id? k = w.unreportedOf id? k := fun id? => by
    rw [unreportedOf_set hc.old hc.new, Instance.owed_home hi, Instance.owed_home hj, sub_self,
      add_zero]
  by_cases hrs : r = s
  · subst hrs
    obtain rfl : i = x := Option.some.inj (hc.old.symm.trans hx)
    have hj : w'.instance? r = some { i with id := some id } := by rw [hc.new, if_pos rfl]
    have hfresh : ¬ w.InUse id := fun h => h.elim hc.fresh
    have hnone : ∀ id? : Option GlobalId, (∀ id', id? = some id' → ¬ w.InUse id') →
        w.unreportedOf id? k = 0 := fun id? hu => List.sum_eq_zero fun n hn => by
      obtain ⟨y, hy, rfl⟩ := List.mem_map.mp hn
      obtain ⟨t, ht⟩ := List.mem_iff_getElem?.mp hy
      have hyt : w.instance? t = some y := ht
      refine if_neg fun he => ?_
      obtain ⟨id', hid'⟩ := Option.isSome_iff_exists.mp he.1
      exact hu id' (he.2 ▸ hid')
        ⟨t, by rw [idOf?_eq hyt, (Instance.remoteId?_eq_some.mp hid').1]⟩
    rw [netTally_eq hj, netTally_eq hx, hc.net, hun, hc.unnamed, reportsOf_none,
      reportsOf_unused ho hfresh,
      hnone (some id) (fun id' hid' => by cases hid'; exact hfresh),
      hnone none (fun id' hid' => by cases hid')]
  · have hx' : w'.instance? r = some x := by rw [hc.new, if_neg hrs, hx]
    rw [netTally_eq hx', netTally_eq hx, hc.net, hun]

/-- An instance that has just been made owes nothing. -/
theorem Settles.netTally (ha : Settles w w' tok p j) (hr : w.IsRoot r) (k : ℕ) :
    w'.netTally r k = w.netTally r k := by
  obtain ⟨x, hx, -⟩ := hr
  rw [netTally_eq (ha.old hx), netTally_eq hx, ha.net, unreportedOf_add ha.toAdds,
    Instance.owed_away ha.away, ha.unreported]
  simp

/-- Messages that report nothing are of no account. -/
theorem netTally_renet (hi : w'.instances = w.instances)
    (hrep : ∀ id?, reportsOf id? w'.net.packets = reportsOf id? w.net.packets) :
    w'.netTally = w.netTally := by
  funext r k
  unfold netTally instance? unreportedOf
  rw [hi]
  simp only [hrep]

theorem netTally_alike (h : Alike w w') : w'.netTally = w.netTally :=
  netTally_renet h.instances fun _ => by rw [h.net]

/-! ### Operations -/

theorem Akin.isSome (h : w.Akin r s) (hr : (w.instance? r).isSome) : (w.instance? s).isSome := by
  rcases h with rfl | ⟨hs, -⟩
  · exact hr
  · unfold World.idOf? at hs
    cases hi : w.instance? s with
    | none => rw [hi] at hs; cases hs
    | some i => rfl

theorem IsRoot.isSome (h : w.IsRoot r) : (w.instance? r).isSome := by
  obtain ⟨i, hi, -⟩ := h
  rw [hi]
  rfl

/-- An operation on an instance that is not there concerns no scope. -/
theorem not_akin_absent (hr : w.IsRoot r) (hs : w.instance? s = none) : ¬ w.Akin r s := fun h => by
  have := h.isSome hr.isSome
  rw [hs] at this
  cases this

theorem netTally_spawn (ho : Orderly w) (hr : w.IsRoot r) (s : Serial) (target : PlaceId) (k : ℕ) :
    (w.spawn s target).netTally r k =
      w.netTally r k + if w.Akin r s ∧ target.index = k then 1 else 0 := by
  cases hi : w.instance? s with
  | none => simp [World.spawn, hi, not_akin_absent hr hi]
  | some i =>
    obtain ⟨j, ha⟩ := amends_spawn hi target
    rw [ha.netTally ho hr, Pi.single_apply]
    by_cases hak : w.Akin r s <;> simp [hak, eq_comm]

theorem netTally_submit (ho : Orderly w) (hr : w.IsRoot r) (s : Serial) (k : ℕ) :
    (w.submit s).2.netTally r k = w.netTally r k := by
  cases hi : w.instance? s with
  | none => simp [World.submit, hi]
  | some i =>
    obtain ⟨j, ha⟩ := amends_submit hi
    rw [ha.netTally ho hr]
    simp

/-- The place of the root accepts messages: what other instances report is not lost. -/
def Answers (w : World Pairwise β) (r : Serial) : Prop := ∀ q ∈ w.placeOf? r, ¬ w.net.Refuses q

instance (w : World Pairwise β) (r : Serial) : Decidable (w.Answers r) := by
  unfold Answers
  infer_instance

theorem netTally_tell (ho : Orderly w) (hr : w.IsRoot r) (hn : w.Answers r) (s : Serial) (k : ℕ) :
    (w.tell s).netTally r k = w.netTally r k - if w.Akin r s ∧ w.SitsAt s k then 1 else 0 := by
  cases hi : w.instance? s with
  | none => simp [World.tell, hi, not_akin_absent hr hi]
  | some i =>
    obtain ⟨j, v, sent, ha, hv⟩ := amends_tell hi
    rw [ha.netTally ho hr]
    by_cases hak : w.Akin r s
    · obtain ⟨x, hx, hxr⟩ := hr
      have hhome : ∀ id, i.remoteId? = some id → ¬ w.net.Refuses id.home := fun id hid => by
        have hxid : w.idOf? r = some id := (akin_iff (by
          rw [idOf?_eq hi, (Instance.remoteId?_eq_some.mp hid).1])).mp hak
        rw [idOf?_eq hx] at hxid
        rw [Instance.remoteId?_eq_none.mp hxr id hxid]
        exact hn x.place (placeOf?_eq hx)
      have hsits := sitsAt_of (placeOf?_eq hi) k
      rw [if_pos hak, hv hhome, Pi.single_apply]
      by_cases hk : i.place.index = k
      · simp [hak, hsits, hk, Int.sub_eq_add_neg]
      · simp [hsits, hk, Ne.symm hk]
    · simp [hak]

theorem netTally_prepareTransfer (ho : Orderly w) (hr : w.IsRoot r) (s : Serial) (k : ℕ) :
    (w.prepareTransfer s).2.netTally r k = w.netTally r k := by
  cases hi : w.instance? s with
  | none => simp [World.prepareTransfer, hi]
  | some i =>
    cases hid : i.id with
    | some id => rw [prepareTransfer_known hi hid]
    | none =>
      rcases prepareTransfer_cases (ho.built s i hi) ho.allocated hi hid with ⟨e, he⟩ | ⟨id, -, hc⟩
      · rw [he]
      · exact hc.netTally ho hr k

theorem netTally_resolve (hp : w.Built p) (hr : w.IsRoot r) (tok : Token) (k : ℕ) :
    (w.resolve tok p).2.netTally r k = w.netTally r k := by
  rcases resolve_cases hp tok with ⟨e, he⟩ | ⟨s, hs, -⟩ | ⟨w', j, hw, -, ha⟩
  · rw [he]
  · rw [hs]
  · rw [hw]
    exact ha.netTally hr k

theorem netTally_accept (ho : Orderly w) (hp : w.Built p) (ht : w.InUse tok.id) (hr : w.IsRoot r)
    (k : ℕ) : (w.accept tok p).2.netTally r k = w.netTally r k := by
  have h1 := moved_resolve hp ht
  have h2 := netTally_resolve hp hr tok k
  unfold World.accept
  rcases hw : w.resolve tok p with ⟨_ | s, w₁⟩ <;> rw [hw] at h1 h2
  · exact h2
  · exact (netTally_submit (h1.orderly ho) (h1.lasts.isRoot hr) s k).trans h2

/-! ### Tasks of several scopes -/

/-- A task is charged to each of its scopes at the place it is meant for. -/
theorem netTally_spawnAll (ho : Orderly w) (hr : w.IsRoot r) (fs : List Serial) (target : PlaceId)
    (k : ℕ) : (w.spawnAll fs target).netTally r k =
      w.netTally r k + w.unitsAt r k (units fs target) := by
  induction fs generalizing w with
  | nil => simp [World.spawnAll]
  | cons s fs ih =>
    have hm := moved_spawn w s target
    rw [spawnAll_cons, ih (hm.orderly ho) (hm.lasts.isRoot hr), netTally_spawn ho hr,
      (steady_spawn w s target).unitsAt, units_cons, unitsAt_cons]
    push_cast
    omega

theorem netTally_submitAll (ho : Orderly w) (hr : w.IsRoot r) (fs : List Serial) (k : ℕ) :
    (w.submitAll fs).netTally r k = w.netTally r k := by
  induction fs generalizing w with
  | nil => rfl
  | cons s fs ih =>
    have hm := moved_submit w s
    rw [submitAll_cons, ih (hm.orderly ho) (hm.lasts.isRoot hr), netTally_submit ho hr]

theorem Answers.lasts (h : w.Answers r) (hr : w.IsRoot r) (hl : Lasts w w') (hg : Ground w w') :
    w'.Answers r := fun q hq => by
  obtain ⟨i, hi, -⟩ := hr
  have hplace := placeOf?_eq hi
  obtain rfl : i.place = q := Option.some.inj ((hl.placeOf? hplace).symm.trans hq)
  unfold Pairwise.Refuses
  rw [hg.known, hg.dead]
  exact h i.place hplace

/-- A task that ends is taken off each of its scopes at the place of the instance told. -/
theorem netTally_tellAll (ho : Orderly w) (hr : w.IsRoot r) (hn : w.Answers r) (fs : List Serial)
    (k : ℕ) : (w.tellAll fs).netTally r k = w.netTally r k - w.tasksAt r k ↑fs := by
  induction fs generalizing w with
  | nil => simp [World.tellAll]
  | cons s fs ih =>
    have hm := moved_tell w s
    rw [show w.tellAll (s :: fs) = (w.tell s).tellAll fs from rfl,
      ih (hm.orderly ho) (hm.lasts.isRoot hr) (hn.lasts hr hm.lasts (ground_tell w s).1),
      netTally_tell ho hr hn,
      (namesakes_tell w s).tasksAt, ← Multiset.cons_coe, tasksAt_cons]
    push_cast
    omega

theorem netTally_prepareAll (ho : Orderly w) (hr : w.IsRoot r) (fs : List Serial) (k : ℕ) :
    (w.prepareAll fs).2.netTally r k = w.netTally r k := by
  induction fs generalizing w with
  | nil => rfl
  | cons s fs ih =>
    have hm := (moved_prepareTransfer ho s).1
    have h1 := netTally_prepareTransfer ho hr s k
    simp only [World.prepareAll]
    rcases hw : w.prepareTransfer s with ⟨_ | tok, w₁⟩ <;> rw [hw] at hm h1
    · exact h1
    · have h2 := (ih (hm.orderly ho) (hm.lasts.isRoot hr)).trans h1
      simp only at h2 ⊢
      rcases hw' : w₁.prepareAll fs with ⟨_ | ts, w₂⟩ <;> rw [hw'] at h2 <;> exact h2

/-- The scopes stay apart when they get identities. -/
theorem akin_prepareAll (ho : Orderly w) (fs : List Serial) :
    (w.prepareAll fs).2.Akin = w.Akin := by
  induction fs generalizing w with
  | nil => rfl
  | cons s fs ih =>
    have hm := (moved_prepareTransfer ho s).1
    have h1 : (w.prepareTransfer s).2.Akin = w.Akin := by
      cases hi : w.instance? s with
      | none => simp [World.prepareTransfer, hi]
      | some i =>
        cases hid : i.id with
        | some id => rw [prepareTransfer_known hi hid]
        | none =>
          rcases prepareTransfer_cases (ho.built s i hi) ho.allocated hi hid with
            ⟨e, he⟩ | ⟨id, -, hc⟩
          · rw [he]
          · exact hc.akin
    simp only [World.prepareAll]
    rcases hw : w.prepareTransfer s with ⟨_ | tok, w₁⟩ <;> rw [hw] at hm h1
    · exact h1
    · have h2 := (ih (hm.orderly ho)).trans h1
      simp only at h2 ⊢
      rcases hw' : w₁.prepareAll fs with ⟨_ | ts, w₂⟩ <;> rw [hw'] at h2 <;> exact h2

end World

end Quiescence
