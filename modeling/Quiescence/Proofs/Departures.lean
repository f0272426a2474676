/-
# Nothing is left of a scope that was left

A root gives up its identity when it is left. A message that came later would
find nobody, and an instance elsewhere that kept the identity would keep it for
good. Neither is there: a released scope has nothing on its way, and its other
instances give up the identity when their last task ends.

* `Vacant`: the invariant. Away from home only instances with a task are bound,
  and of the scopes that were left none is.
* `Gone`, `Kept.gone`: what that leaves of a scope that was left.
* `Consistent.lookup_root`: reports and failures on their way find their root.
-/
import Quiescence.Proofs.Bodies

namespace Quiescence

/-! ### Messages of a scope -/

namespace Message

variable {β : Type} {m : Message β} {id : GlobalId}

/-- Such a message counts in the ledger of the scope. -/
theorem Concerns.carried_or_deltas (h : m.Concerns id) :
    m.carried (some id) ≠ 0 ∨ (m.deltas? (some id)).isSome := by
  cases m with
  | handOff tokens body =>
    obtain ⟨t, ht, rfl⟩ := h
    refine .inl (Nat.pos_iff_ne_zero.mp (List.countP_pos_iff.mpr ⟨t, ht, ?_⟩))
    simp
  | report id' deltas =>
    obtain rfl : id' = id := h
    exact .inr (by simp [deltas?])
  | failure id' payload =>
    obtain rfl : id' = id := h
    exact .inl (by simp [carried])

end Message

namespace World

section Submitting

variable {ν : Type → Type} {β : Type} {w w' : World ν β} {s t : Serial} {fs : List Serial}

/-- The instance has its identity, if it is away from home. -/
def Flagged (w : World ν β) (s : Serial) : Prop :=
  ∀ i id, w.instance? s = some i → i.remoteId? = some id → i.bound = true

/-- A task for an instance that has its identity changes no binding. -/
theorem bound?_submit (h : w.Flagged s) : (w.submit s).2.bound? = w.bound? := by
  cases hi : w.instance? s with
  | none => simp [World.submit, hi]
  | some i =>
    cases hr : i.remoteId? with
    | none => rw [submit_home hi hr]
    | some id => rw [submit_bound hi hr (h i id hi hr), bound?_setInstance]

theorem Flagged.submit (h : w.Flagged t) (hs : w.Flagged s) : (w.submit s).2.Flagged t := by
  cases hi : w.instance? s with
  | none => simpa [World.submit, hi] using h
  | some i =>
    cases hr : i.remoteId? with
    | none => rwa [submit_home hi hr]
    | some id =>
      rw [submit_bound hi hr (hs i id hi hr)]
      intro x id' hx hxr
      rw [instance?_setInstance hi] at hx
      split_ifs at hx
      · cases hx
        exact hs i id hi hr
      · exact h x id' hx hxr

theorem bound?_submitAll (h : ∀ s ∈ fs, w.Flagged s) : (w.submitAll fs).bound? = w.bound? := by
  induction fs generalizing w with
  | nil => rfl
  | cons s fs ih =>
    have hs := h s (List.mem_cons_self ..)
    have h1 := ih (w := (w.submit s).2) fun t ht => (h t (List.mem_cons_of_mem _ ht)).submit hs
    exact h1.trans (bound?_submit hs)

theorem namesakes_submitAll (w : World ν β) (fs : List Serial) : Namesakes w (w.submitAll fs) :=
  List.foldlRecOn fs _ ⟨rfl, rfl⟩ fun _ h s _ =>
    have hs := namesakes_submit _ s
    ⟨hs.ids.trans h.ids, hs.places.trans h.places⟩

theorem Tidy.flagged {held : Multiset Serial} (h : Tidy w held) (hs : s ∈ held) : w.Flagged s :=
  fun i id hi hr => h.busy s i id hi hr hs

/-- What a place binds to an identity has its identity. -/
theorem Tidy.flagged_of_bound {held : Multiset Serial} (h : Tidy w held) {p : PlaceId}
    {id : GlobalId} (hb : w.bound? p id = some (.scope s)) : w.Flagged s := fun i id' hi hr => by
  obtain ⟨t, x, ht, hx, rfl, hid⟩ := h.registered p id _ hb
  cases ht
  obtain rfl : i = x := Option.some.inj (hi.symm.trans hx)
  obtain rfl : id' = id := Option.some.inj ((Instance.remoteId?_eq_some.mp hr).1.symm.trans hid)
  exact (h.flag s i id' hi hr).mpr hb

end Submitting

variable {β : Type} {w w' : World Pairwise β} {g g' : Ledger β} {held held' : Multiset Serial}
  {left : List Serial} {limbo : Multiset (Serial × PlaceId)}
  {arrived : List (Packet (Message β))} {r s : Serial} {i : Instance} {p target : PlaceId}
  {id : GlobalId} {fs : List Serial} {task : Task β}

theorem namesakes_tell (w : World Pairwise β) (s : Serial) : Namesakes w (w.tell s) := by
  cases hi : w.instance? s with
  | none => simpa [World.tell, hi] using (Steady.refl w).toNamesakes
  | some i =>
    cases hr : i.remoteId? with
    | none =>
      rw [tell_home hi hr]
      exact namesakes_of_set hi (instance?_setInstance hi _) rfl rfl
    | some id =>
      cases hd : i.counters.tellAway i.place w.known with
      | mk deltas c =>
        cases deltas with
        | none =>
          rw [tell_away_quiet hi hr hd]
          exact namesakes_of_set hi (instance?_setInstance hi _) rfl rfl
        | some deltas => exact namesakes_of_set hi (tell_last hi hr hd).2.1 rfl rfl

/-! ### Who is bound -/

/-- Away from home an instance is bound only while it holds a task, and at home the root of a scope
until the scope is left. -/
structure Vacant (w : World Pairwise β) (held : Multiset Serial) (left : List Serial) : Prop where
  busy : ∀ p (id : GlobalId) s, w.bound? p id = some (.scope s) → p ≠ id.home → s ∈ held
  unbound : ∀ r ∈ left, ∀ id, w.idOf? r = some id → w.bound? id.home id = none

namespace Vacant

/-- Bindings may go, and those who are bound may get more tasks. -/
theorem mono (h : Vacant w held left)
    (hb : ∀ q id b, w'.bound? q id = some b → w.bound? q id = some b)
    (hid : ∀ r ∈ left, ∀ id, w'.idOf? r = some id → w.idOf? r = some id)
    (hheld : ∀ p (id : GlobalId) s, w'.bound? p id = some (.scope s) → p ≠ id.home → s ∈ held →
      s ∈ held') : Vacant w' held' left := by
  refine ⟨fun p id s hbs hp => hheld p id s hbs hp (h.busy p id s (hb p id _ hbs) hp),
    fun r hr id hx => ?_⟩
  have hnone := h.unbound r hr id (hid r hr id hx)
  cases hbn : w'.bound? id.home id with
  | none => rfl
  | some b => exact (Option.some_ne_none b ((hb _ _ b hbn).symm.trans hnone)).elim

theorem congr (h : Vacant w held left) (hb : w'.bound? = w.bound?) (hid : w'.idOf? = w.idOf?)
    (hheld : ∀ s ∈ held, s ∈ held') : Vacant w' held' left :=
  h.mono (fun _ _ _ hx => hb ▸ hx) (fun _ _ _ hx => hid ▸ hx) fun _ _ s _ _ hs => hheld s hs

theorem spawnAll (h : Vacant w held left) (fs : List Serial) (target : PlaceId) :
    Vacant (w.spawnAll fs target) held left :=
  have ho := (Offset.refl w).spawnAll fs target
  h.congr ho.bound? ho.steady.ids fun _ hs => hs

/-- A scope gets its identity while it has a task, so it has not been left. -/
theorem prepareTransfer (h : Vacant w g.held g.left) (hc : Consistent w g limbo arrived)
    (hs : s ∈ g.held) : Vacant (w.prepareTransfer s).2 g.held g.left := by
  obtain ⟨i, hi⟩ := Option.isSome_iff_exists.mp (hc.tidy.made s hs)
  cases hid : i.id with
  | some id =>
    rw [prepareTransfer_known hi hid]
    exact h
  | none =>
    rcases prepareTransfer_cases (hc.tidy.built s i hi) hc.named.allocated hi hid with ⟨e, he⟩ | ⟨id, -, hro⟩
    · rw [he]
      exact h
    · have hr : i.remoteId? = none := Instance.remoteId?_eq_none.mpr fun id' hx => by
        rw [hid] at hx
        cases hx
      have hopen : s ∉ g.left := hc.open_of_held hi hr (.refl w s) hs
      refine ⟨fun p id' t hb hp => ?_, fun r hrl id' hx => ?_⟩
      · rw [hro.bound, if_neg] at hb
        · exact h.busy p id' t hb hp
        · rintro ⟨rfl, rfl⟩
          exact hp hro.home.symm
      · rw [hro.idOf?, if_neg fun hrs : r = s => hopen (hrs ▸ hrl)] at hx
        rw [hro.bound, if_neg]
        · exact h.unbound r hrl id' hx
        · rintro ⟨-, rfl⟩
          exact hro.fresh r hx

theorem prepareAll (h : Vacant w g.held g.left) (hc : Consistent w g limbo arrived)
    (hs : ∀ s ∈ fs, s ∈ g.held) : Vacant (w.prepareAll fs).2 g.held g.left := by
  induction fs generalizing w with
  | nil => exact h
  | cons s fs ih =>
    have h0 := h.prepareTransfer hc (hs s (List.mem_cons_self ..))
    have h1 := ih h0 (hc.prepareTransfer s) fun t ht => hs t (List.mem_cons_of_mem _ ht)
    simp only [World.prepareAll]
    rcases hr : w.prepareTransfer s with ⟨_ | tok, w₁⟩ <;> rw [hr] at h0 h1
    · exact h0
    · simp only at h1 ⊢
      rcases hr' : w₁.prepareAll fs with ⟨_ | ts, w₂⟩ <;> rw [hr'] at h1 <;> exact h1

theorem spawnAt (h : Vacant w g.held g.left) (hc : Consistent w g limbo arrived)
    (hs : ∀ s ∈ task.finishes, s ∈ g.held) (p target : PlaceId) :
    Vacant (w.spawnAt task p target).2 (w.afterSpawn g task p target).held
      (w.afterSpawn g task p target).left := by
  have hheld : ∀ s ∈ g.held, s ∈ (w.afterSpawn g task p target).held := fun s hx => by
    unfold afterSpawn
    cases (w.spawnAt task p target).1 with
    | error e => exact hx
    | ok _ =>
      dsimp only
      split_ifs
      · exact Multiset.mem_add.mpr (.inr hx)
      · exact hx
  have hleft : (w.afterSpawn g task p target).left = g.left := by
    unfold afterSpawn
    cases (w.spawnAt task p target).1 <;> rfl
  rw [hleft]
  suffices hv : Vacant (w.spawnAt task p target).2 g.held g.left from hv.congr rfl rfl hheld
  unfold World.spawnAt
  split_ifs with htp
  · have hst := steady_spawnAll w task.finishes p
    have hflag : ∀ s ∈ task.finishes, (w.spawnAll task.finishes p).Flagged s := fun s hx =>
      (hc.tidy.spawnAll task.finishes p).flagged (hs s hx)
    refine (h.spawnAll task.finishes p).congr ?_ ?_ fun _ hx => hx
    · exact (alike_enqueue _ _).bound?.trans (bound?_submitAll hflag)
    · exact (steady_of_alike (alike_enqueue _ _)).ids.trans
        (namesakes_submitAll (w.spawnAll task.finishes p) task.finishes).ids
  · have h1 := h.prepareAll hc hs
    rcases hw : w.prepareAll task.finishes with ⟨_ | tokens, w₁⟩ <;> rw [hw] at h1
    · exact h1
    · simp only [World.send]
      cases Network.send (w₁.spawnAll task.finishes target).net
          ⟨p, target, Message.handOff tokens task.body⟩ with
      | ok net => exact (h1.spawnAll task.finishes target).congr rfl rfl fun _ hx => hx
      | error e =>
        have ho := ((Offset.refl w₁).spawnAll task.finishes target).unspawnAll
          (retractable_spawnAll w₁ task.finishes target)
        exact h1.congr ho.bound? ho.steady.ids fun _ hx => hx

/-- The last task of an instance takes its identity with it. -/
theorem tell (h : Vacant w held left) (ht : Tidy w held) (hs : s ∈ held) :
    Vacant (w.tell s) (held.erase s) left := by
  obtain ⟨i, hi⟩ := Option.isSome_iff_exists.mp (ht.made s hs)
  have hid : (w.tell s).idOf? = w.idOf? := (namesakes_tell w s).ids
  have hother : ∀ t, t ≠ s → t ∈ held → t ∈ held.erase s := fun t hts hx =>
    (Multiset.mem_erase_of_ne hts).mpr hx
  -- what is bound away from home is an instance that is there, and away from home
  have haway : ∀ p (id : GlobalId), w.bound? p id = some (.scope s) → p ≠ id.home →
      p = i.place ∧ i.remoteId? = some id := fun p id hb hp => by
    obtain ⟨t, x, htx, hx, hxp, hxid⟩ := ht.registered p id _ hb
    cases htx
    obtain rfl : i = x := Option.some.inj (hi.symm.trans hx)
    exact ⟨hxp.symm, Instance.remoteId?_eq_some.mpr ⟨hxid, fun hh => hp (hxp.symm.trans hh.symm)⟩⟩
  cases hr : i.remoteId? with
  | none =>
    have hb : (w.tell s).bound? = w.bound? := by rw [tell_home hi hr, bound?_setInstance]
    refine h.mono (fun q id b hx => hb ▸ hx) (fun r _ id hx => hid ▸ hx) fun p id t hbt hp hx => ?_
    refine hother t (fun hts => ?_) hx
    subst hts
    have := (haway p id (hb ▸ hbt) hp).2
    rw [hr] at this
    cases this
  | some id =>
    have hcount := ht.count s i id hi hr
    by_cases h1 : i.counters.count = 1
    · obtain ⟨deltas, c, hd, -⟩ := Counters.tellAway_report i.place w.known h1
      obtain ⟨-, -, hbound, -⟩ := tell_last hi hr hd
      have hunbound : ∀ q id' b, (w.tell s).bound? q id' = some b → w.bound? q id' = some b :=
        fun q id' b hb => by
          rw [hbound] at hb
          split_ifs at hb
          exact hb
      refine h.mono hunbound (fun r _ id hx => hid ▸ hx) fun p id' t hb hp hx => ?_
      refine hother t (fun hts => ?_) hx
      subst hts
      have hbt := hunbound _ _ _ hb
      obtain ⟨rfl, hrt⟩ := haway p id' hbt hp
      obtain rfl : id = id' := Option.some.inj (hr.symm.trans hrt)
      rw [hbound, if_pos ⟨rfl, rfl, hbt⟩] at hb
      cases hb
    · have hb : (w.tell s).bound? = w.bound? := by
        rw [tell_away_quiet hi hr (Counters.tellAway_quiet i.place w.known h1), bound?_setInstance]
      refine h.congr hb hid fun t hx => ?_
      by_cases hts : t = s
      · -- it holds more than one
        subst hts
        have hpos := Multiset.count_pos.mpr hx
        refine Multiset.count_pos.mp ?_
        rw [Multiset.count_erase_self]
        omega
      · exact hother t hts hx

/-- A task that arrives is accepted by the instance that is bound, or by one that is made for it. -/
theorem accept (h : Vacant w held left) (ht : Tidy w held) (hp : w.Built p)
    (hleft : ∀ r ∈ left, (w.instance? r).isSome) {tok : Token}
    (hacc : w.accept tok p = (.ok s, w')) : Vacant w' (s ::ₘ held) left := by
  have ht₁ := ht.resolve hp tok
  simp only [World.accept] at hacc
  rcases resolve_cases hp tok with ⟨e, hw⟩ | ⟨t, hw, hb⟩ | ⟨w₁, j, hw, -, ha⟩
  · rw [hw] at hacc
    cases hacc
  · rw [hw] at hacc
    cases hacc
    exact h.congr (bound?_submit (ht.flagged_of_bound hb)) (namesakes_submit w s).ids fun _ hx =>
      Multiset.mem_cons_of_mem hx
  · rw [hw] at hacc ht₁
    cases hacc
    have hflag : w₁.Flagged w.instances.length :=
      ht₁.flagged_of_bound ((ha.bound p tok.id).trans (if_pos ⟨rfl, rfl⟩))
    suffices hv : Vacant w₁ (w.instances.length ::ₘ held) left from
      hv.congr (bound?_submit hflag) (namesakes_submit w₁ _).ids fun _ hx => hx
    refine ⟨fun q id t hbt hq => ?_, fun r hr id hx => ?_⟩
    · rw [ha.bound] at hbt
      split_ifs at hbt with hnew
      · cases hbt
        exact Multiset.mem_cons_self ..
      · exact Multiset.mem_cons_of_mem (h.busy q id t hbt hq)
    · obtain ⟨x, hxr⟩ := Option.isSome_iff_exists.mp (hleft r hr)
      rw [ha.idOf? (Adds.ne_new hxr)] at hx
      rw [ha.bound, if_neg]
      · exact h.unbound r hr id hx
      · rintro ⟨hq, rfl⟩
        exact ha.home hq

theorem acceptAll {sender : PlaceId} {tokens : List Token} {body : β} (h : Vacant w g.held g.left)
    (hc : Consistent w g limbo (⟨sender, p, .handOff tokens body⟩ :: arrived)) (hp : w.Built p) :
    Vacant (w.acceptAll p tokens).2 (↑(w.acceptAll p tokens).1.1 + g.held) g.left := by
  induction tokens generalizing w g with
  | nil => exact (Multiset.zero_add g.held).symm ▸ h
  | cons tok tokens ih =>
    obtain ⟨t, ht, htp, h1⟩ := hc.accept hp
    simp only [World.acceptAll]
    rcases hw : w.accept tok p with ⟨o, w₁⟩
    rw [hw] at ht htp h1
    obtain rfl : o = .ok t := ht
    have hbuilt : w₁.Built p := by
      obtain ⟨x, hx, hxp⟩ := Option.map_eq_some_iff.mp htp
      exact hxp ▸ h1.tidy.built t x hx
    have hleft : ∀ r ∈ g.left, (w.instance? r).isSome := fun r hr => by
      obtain ⟨x, hx, -⟩ := hc.closed r hr
      rw [hx]
      rfl
    have h2 := ih (g := { g with held := t ::ₘ g.held }) (h.accept hc.tidy hp hleft hw) h1 hbuilt
    simp only [Multiset.add_cons] at h2
    simpa only [← Multiset.cons_coe, Multiset.cons_add] using h2

theorem deliver (h : Vacant w g.held g.left) (hc : Consistent w g limbo []) {lane : Lane}
    (hw : w.deliver lane = some w') :
    Vacant w' (w.afterDelivery g lane).held (w.afterDelivery g lane).left := by
  obtain ⟨before, pk, after, w₁, hp, hb, ha, hct⟩ := hc.delivery hw
  have hal := hct.toAlike
  suffices hv : Vacant w₁ (w.afterDelivery g lane).held (w.afterDelivery g lane).left from
    hv.congr hal.bound? (steady_of_alike hal).ids fun _ hx => hx
  generalize w.afterDelivery g lane = g' at ha ⊢
  have h0 : Vacant (w.withPackets (before ++ after)) g.held g.left := h.congr rfl rfl fun _ hx => hx
  cases ha with
  | stray sender dest tokens body => exact h0
  | task sender dest tokens body accepted w₂ hbuilt ho hps =>
    have h1 := h0.acceptAll (hc.arrive hp fun _ => rfl) hbuilt
    rw [ho] at h1
    exact h1.congr (alike_enqueue _ _).bound? (steady_of_alike (alike_enqueue _ _)).ids fun _ hx => hx
  | report sender dest id deltas =>
    obtain ⟨rfl, r, i, hi, -, -, -, hbound, -⟩ := hc.root_of_report hp hb
    have hi' : (w.withPackets (before ++ after)).instance? r = some i := hi
    rw [receiveReport_root hi' hbound]
    have hch := changes_set hi' (i.retire
      (i.counters.update i.place deltas (w.withPackets (before ++ after)).known).1
      (i.counters.update i.place deltas (w.withPackets (before ++ after)).known).2) rfl rfl
    exact h0.congr hch.bound? hch.steady.ids fun _ hx => hx
  | failure sender id payload r i hne hi hid hip hr hl =>
    obtain ⟨j, hch, -⟩ := changes_deliverFailure hi hr hl payload
    exact h0.congr hch.bound? hch.steady.ids fun _ hx => hx

/-- A scope that is left gives up its identity. -/
theorem leave (h : Vacant w g.held g.left) (hc : Consistent w g limbo arrived)
    (hi : w.instance? r = some i) (hr : i.remoteId? = none) :
    Vacant (w.leave r).2 g.held (r :: g.left) := by
  obtain ⟨-, -, hinst, hbound⟩ := leave_spec hi
  have hids : (w.leave r).2.idOf? = w.idOf? := (namesakes_of_set hi hinst rfl rfl).ids
  have hgo : ∀ q id b, (w.leave r).2.bound? q id = some b → w.bound? q id = some b :=
    fun q id b hb => by
      have hb := (hbound q id).symm.trans hb
      split_ifs at hb
      exact hb
  refine ⟨fun p id s hb hp => h.busy p id s (hgo p id _ hb) hp, fun t ht id hx => ?_⟩
  rw [hids] at hx
  by_cases htl : t ∈ g.left
  · have hnone := h.unbound t htl id hx
    cases hbn : (w.leave r).2.bound? id.home id with
    | none => rfl
    | some b => exact (Option.some_ne_none b ((hgo _ _ b hbn).symm.trans hnone)).elim
  · obtain rfl : t = r := (List.mem_cons.mp ht).resolve_right htl
    rw [idOf?_eq hi] at hx
    have hhome := Instance.remoteId?_eq_none.mp hr id hx
    have hroot := hc.named.bound t id (by rw [idOf?_eq hi, hx]) (by rw [placeOf?_eq hi, hhome]) htl
    exact (hbound id.home id).trans (if_pos ⟨hhome, hx, hroot⟩)

theorem step (h : Vacant w g.held g.left) (hc : Consistent w g 0 []) (hs : Step w g w' g') :
    Vacant w' g'.held g'.left := by
  cases hs with
  | openScope p kind hp =>
    have hnew : ∀ t x, w.instance? t = some x → (w.openScope p kind).2.idOf? t = w.idOf? t :=
      fun t x hx => by
        have hx' : (w.openScope p kind).2.instance? t = some x :=
          (instance?_addInstance w _ t).trans ((if_neg (Nat.ne_of_lt (serial_lt hx))).trans hx)
        rw [idOf?_eq hx, idOf?_eq hx']
    refine h.mono (fun _ _ _ hb => hb) (fun r hr id hx => ?_) fun _ _ s _ _ hx =>
      Multiset.mem_cons_of_mem hx
    obtain ⟨x, hxr, -⟩ := hc.closed r hr
    rwa [hnew r x hxr] at hx
  | spawn task p target hs => exact h.spawnAt hc (fun s hx => (hs s hx).1) p target
  | fail s f hs =>
    obtain ⟨i, hi⟩ := Option.isSome_iff_exists.mp (hc.tidy.made s hs)
    obtain ⟨j, hch⟩ := changes_addSuppressed hi f
    exact h.congr hch.bound? hch.steady.ids fun _ hx => hx
  | tell s hs => exact h.tell hc.tidy hs
  | deliver lane _ hw => exact h.deliver hc hw
  | leave r i hi hr _ => exact h.leave hc hi hr
  | kill p _ hw =>
    cases hw
    exact h.congr rfl rfl fun _ hx => hx
  | resize known _ => exact h.congr rfl rfl fun _ hx => hx
  | elsewhere _ ha => exact h.congr ha.bound? (steady_of_alike ha).ids fun _ hx => hx

end Vacant

theorem Reachable.vacant (h : Reachable w g) : Vacant w g.held g.left := by
  induction h with
  | start net places kind spins hn hp =>
    refine ⟨fun p id s hb => ?_, fun r hr => absurd hr List.not_mem_nil⟩
    obtain ⟨t, x, -, hx, -⟩ := (tidy_start net places kind spins hp).registered p id _ hb
    simp [World.start, instance?] at hx
  | step h hs ih => exact ih.step h.consistent hs

/-! ### What is left -/

section Remains

variable {pk : Packet (Message β)}

/-- A scope of which a message is on its way has not been left. -/
theorem Consistent.open_of_message (h : Consistent w g limbo arrived) (hi : w.instance? r = some i)
    (hid : i.id = some id) (hpk : pk ∈ w.net.packets) (hm : pk.content.Concerns id) :
    r ∉ g.left := by
  obtain ⟨before, after, hp⟩ := List.append_of_mem hpk
  rcases hm.carried_or_deltas with hc | hd
  · refine h.open_of_outstanding hi (k := pk.dest.index) ?_
    rw [hid, hp]
    simp only [carriedAt_append, carriedAt_cons, if_pos]
    omega
  · obtain ⟨deltas, hd⟩ := Option.isSome_iff_exists.mp hd
    refine h.open_of_episode hi (p := pk.sender) (List.ne_nil_of_mem (a := ⟨pk.sender, Counters.slot
      deltas⟩) ?_)
    rw [hid]
    refine List.mem_append_left _ (mem_episodesAt.mpr ⟨?_, rfl⟩)
    rw [hp]
    simp [hd]

/-- A report or a failure on its way finds the root of its scope at its destination. -/
theorem Consistent.lookup_root (h : Consistent w g limbo arrived) (hpk : pk ∈ w.net.packets)
    (hid : pk.content.rootId? = some id) : ∃ r i, w.lookup pk.dest id = .ok r ∧
      w.instance? r = some i ∧ i.id = some id ∧ i.remoteId? = none := by
  have ha := h.named.addressed pk (by simp [hpk])
  obtain ⟨hroot, hdest⟩ : w.Rooted id ∧ pk.dest = id.home := by
    unfold Addressed at ha
    cases hm : pk.content <;> rw [hm] at ha hid <;> cases hid <;> exact ⟨ha.1, ha.2.1⟩
  obtain ⟨r, i, hi, hiid, hip, hr⟩ := hroot.root
  have hopen := h.open_of_message hi hiid hpk (.of_rootId hid)
  have hbound := h.named.bound r id (by rw [idOf?_eq hi, hiid]) (by rw [placeOf?_eq hi, hip]) hopen
  exact ⟨r, i, by simp only [World.lookup, hdest, hbound], hi, hiid, hr⟩

/-- Of the scope of a root nothing is left but the root: no message on its way, no task that waits for
a worker, no binding at any place, and no count at any other. -/
structure Gone (w : World Pairwise β) (r : Serial) : Prop where
  messages : ∀ id, w.idOf? r = some id → ∀ pk ∈ w.net.packets, ¬ pk.content.Concerns id
  jobs : ∀ job ∈ w.jobs, ∀ s ∈ job.finishes, ¬ w.Akin r s
  bindings : ∀ id, w.idOf? r = some id → ∀ p, w.bound? p id = none
  away : ∀ id, w.idOf? r = some id → ∀ s i, w.instance? s = some i → i.remoteId? = some id →
    i.counters.count = 0 ∧ ∀ k, i.counters.unreported k = 0

namespace Vacant

/-- What is bound has a root that has not been left. -/
theorem open_of_bound (h : Vacant w g.held g.left) (hc : Consistent w g limbo arrived)
    {b : Binding} (hb : w.bound? p id = some b) :
    ∃ r i, w.instance? r = some i ∧ i.remoteId? = none ∧ i.id = some id ∧ r ∉ g.left := by
  obtain ⟨s, x, rfl, hx, hxp, hxid⟩ := hc.tidy.registered p id b hb
  have hid : w.idOf? s = some id := by rw [idOf?_eq hx, hxid]
  obtain ⟨r, i, hi, hiid, -, hr⟩ := (hc.named.rooted s id hid).root
  refine ⟨r, i, hi, hr, hiid, fun hl => ?_⟩
  by_cases hp : p = id.home
  · subst hp
    rw [h.unbound r hl id (by rw [idOf?_eq hi, hiid])] at hb
    cases hb
  · have hak : w.Akin r s := (akin_iff hid).mpr (by rw [idOf?_eq hi, hiid])
    exact hc.open_of_held hi hr hak (h.busy p id s hb hp) hl

theorem gone (h : Vacant w g.held g.left) (hc : Consistent w g limbo arrived)
    (hjobs : ∀ job ∈ w.jobs, ∀ s ∈ job.finishes, s ∈ g.held) (hl : r ∈ g.left) : Gone w r := by
  obtain ⟨i, hi, hr, -⟩ := hc.closed r hl
  have hid : ∀ id, w.idOf? r = some id → i.id = some id := fun id hx => by
    rwa [idOf?_eq hi] at hx
  refine
    { messages := fun id hx pk hpk hm => hc.open_of_message hi (hid id hx) hpk hm hl
      jobs := fun job hj s hs hak => hc.open_of_held hi hr hak (hjobs job hj s hs) hl
      bindings := fun id hx p => ?_
      away := fun id hx s x hs hxr => ?_ }
  · by_contra hb
    obtain ⟨b, hb⟩ := Option.ne_none_iff_exists'.mp hb
    obtain ⟨r', i', hi', hr', hid', hopen⟩ := h.open_of_bound hc hb
    obtain rfl : r = r' := hc.named.unique r r' id hx (by rw [idOf?_eq hi', hid'])
      (by rw [placeOf?_eq hi, Instance.remoteId?_eq_none.mp hr id (hid id hx)])
      (by rw [placeOf?_eq hi', Instance.remoteId?_eq_none.mp hr' id hid'])
    exact hopen hl
  · have hsid : w.idOf? s = some id := by
      rw [idOf?_eq hs, (Instance.remoteId?_eq_some.mp hxr).1]
    have hidle : s ∉ g.held := fun hm =>
      hc.open_of_held hi hr ((akin_iff hsid).mpr hx) hm hl
    refine ⟨?_, fun k => ?_⟩
    · rw [hc.tidy.count s x id hs hxr, Multiset.count_eq_zero.mpr hidle]
      rfl
    · rw [hc.idle s x id hs hxr hidle]
      rfl

end Vacant

end Remains

end World

end Quiescence
