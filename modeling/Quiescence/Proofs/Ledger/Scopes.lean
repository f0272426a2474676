/-
# Opening, naming and leaving scopes keep the accounts

The operations that make instances, give them identities, or take identities
away. None of them touches a task that was there before.

* `Consistent.openScope`: a scope opened has its body as the one task.
* `Consistent.prepareTransfer`: a root gets an identity that nobody has used.
* `Consistent.resolve`: an instance is made that holds nothing yet.
* `Consistent.leave`: a scope that is released is left.
-/
import Quiescence.Proofs.Ledger.Naming
import Quiescence.Proofs.Ledger.Steps

namespace Quiescence

namespace World

variable {β : Type} {w w' : World Pairwise β} {g g' : Ledger β}
  {limbo limbo' : Multiset (Serial × PlaceId)} {arrived arrived' : List (Packet (Message β))}
  {r s : Serial} {i j : Instance} {p : PlaceId} {id : GlobalId}

/-- No message speaks of a scope without an identity. -/
@[simp] theorem carried_none (m : Message β) : m.carried none = 0 := by
  cases m <;> simp [Message.carried]

@[simp] theorem carriedAt_none (k : ℕ) (pks : List (Packet (Message β))) : carriedAt none k pks = 0 := by
  simp [carriedAt]

@[simp] theorem reportsOf_none (pks : List (Packet (Message β))) : reportsOf none pks = [] := by
  unfold reportsOf
  rw [List.filterMap_eq_nil_iff]
  intro pk _
  cases hm : pk.content <;> simp [Message.deltas?]

/-! ### New instances -/

/-- One instance more, with the next serial number. -/
structure Adds (w w' : World Pairwise β) (j : Instance) : Prop where
  new : ∀ t, w'.instance? t = if t = w.instances.length then some j else w.instance? t
  net : w'.net = w.net
  next : w'.nextOf? = w.nextOf?
  homes : w'.tableHome? = w.tableHome?

namespace Adds

theorem old (ha : Adds w w' j) {x : Instance} (hx : w.instance? s = some x) :
    w'.instance? s = some x := by
  rw [ha.new, if_neg (Nat.ne_of_lt (serial_lt hx))]
  exact hx

theorem isSome (ha : Adds w w' j) (hs : (w.instance? s).isSome) : (w'.instance? s).isSome := by
  obtain ⟨x, hx⟩ := Option.isSome_iff_exists.mp hs
  rw [ha.old hx]
  rfl

theorem ne_new {x : Instance} (hx : w.instance? s = some x) : s ≠ w.instances.length :=
  Nat.ne_of_lt (serial_lt hx)

theorem idOf? (ha : Adds w w' j) (hs : s ≠ w.instances.length) : w'.idOf? s = w.idOf? s := by
  unfold World.idOf?
  rw [ha.new, if_neg hs]

theorem placeOf? (ha : Adds w w' j) (hs : s ≠ w.instances.length) : w'.placeOf? s = w.placeOf? s := by
  unfold World.placeOf?
  rw [ha.new, if_neg hs]

theorem akin (ha : Adds w w' j) (hr : r ≠ w.instances.length) (hs : s ≠ w.instances.length) :
    w'.Akin r s ↔ w.Akin r s := by
  unfold Akin
  rw [ha.idOf? hr, ha.idOf? hs]

theorem unitsAt (ha : Adds w w' j) (hr : r ≠ w.instances.length) {us : Multiset (Serial × PlaceId)}
    (hus : ∀ u ∈ us, (w.instance? u.1).isSome) (k : ℕ) : w'.unitsAt r k us = w.unitsAt r k us :=
  unitsAt_congr fun u hu => by
    obtain ⟨x, hx⟩ := Option.isSome_iff_exists.mp (hus u hu)
    exact ha.akin hr (ne_new hx)

theorem tasksAt (ha : Adds w w' j) (hr : r ≠ w.instances.length) {ts : Multiset Serial}
    (hts : ∀ s ∈ ts, (w.instance? s).isSome) (k : ℕ) : w'.tasksAt r k ts = w.tasksAt r k ts :=
  tasksAt_congr fun s hs => by
    obtain ⟨x, hx⟩ := Option.isSome_iff_exists.mp (hts s hs)
    exact ⟨ha.akin hr (ne_new hx), ha.placeOf? (ne_new hx)⟩

theorem rooted (ha : Adds w w' j) (h : w.Rooted id) : w'.Rooted id := by
  obtain ⟨r, i, hi, hid, hp, -⟩ := h.root
  exact ⟨r, by rw [idOf?_eq (ha.old hi), hid], by rw [placeOf?_eq (ha.old hi), hp]⟩

theorem addressed (ha : Adds w w' j) {pk : Packet (Message β)} (h : w.Addressed pk) :
    w'.Addressed pk := by
  obtain ⟨sender, dest, m⟩ := pk
  cases m with
  | handOff tokens body => exact fun t ht => ha.rooted (h t ht)
  | report id deltas => exact ⟨ha.rooted h.1, h.2⟩
  | failure id payload => exact ⟨ha.rooted h.1, h.2⟩

/-- The new instance is not the root of a scope that was there. -/
theorem named (ha : Adds w w' j) {left : List Serial} {pks : List (Packet (Message β))}
    (hn : Named w left pks) (hj : ∀ id, j.id = some id → w.Rooted id ∧ j.place ≠ id.home)
    (hb : ∀ id : GlobalId, w'.bound? id.home id = w.bound? id.home id) : Named w' left pks := by
  have hold : ∀ t id, w'.idOf? t = some id → t ≠ w.instances.length → w.idOf? t = some id :=
    fun t id ht hne => by rwa [ha.idOf? hne] at ht
  have hnew : ∀ id, w'.idOf? w.instances.length = some id →
      w.Rooted id ∧ w'.placeOf? w.instances.length ≠ some id.home := fun id ht => by
    have hjn : w'.instance? w.instances.length = some j := by rw [ha.new, if_pos rfl]
    rw [idOf?_eq hjn] at ht
    rw [placeOf?_eq hjn]
    exact ⟨(hj id ht).1, fun hp => (hj id ht).2 (Option.some.inj hp)⟩
  have hroot : ∀ t id, w'.idOf? t = some id → w'.placeOf? t = some id.home →
      w.idOf? t = some id ∧ w.placeOf? t = some id.home := fun t id ht hp => by
    have hne : t ≠ w.instances.length := fun hne => (hnew id (hne ▸ ht)).2 (hne ▸ hp)
    exact ⟨hold t id ht hne, by rwa [ha.placeOf? hne] at hp⟩
  have hany : ∀ t id, w'.idOf? t = some id → w.Rooted id := fun t id ht => by
    by_cases hne : t = w.instances.length
    · exact (hnew id (hne ▸ ht)).1
    · exact hn.rooted t id (hold t id ht hne)
  refine
    { rooted := fun t id ht => ha.rooted (hany t id ht)
      unique := fun t t' id ht ht' hp hp' => ?_
      allocated := fun t id ht => ?_
      bound := fun t id ht hp hl => ?_
      addressed := fun pk hpk => ha.addressed (hn.addressed pk hpk) }
  · obtain ⟨h1, h2⟩ := hroot t id ht hp
    obtain ⟨h1', h2'⟩ := hroot t' id ht' hp'
    exact hn.unique t t' id h1 h1' h2 h2'
  · obtain ⟨t', h1, -⟩ := hany t id ht
    rw [ha.next]
    exact hn.allocated t' id h1
  · obtain ⟨h1, h2⟩ := hroot t id ht hp
    rw [hb]
    exact hn.bound t id h1 h2 hl

end Adds

theorem adds_addInstance (w : World Pairwise β) (j : Instance) : Adds w (w.addInstance j).2 j :=
  ⟨instance?_addInstance w j, rfl, rfl, rfl⟩

/-- An instance is made. What was counted before is counted as before, and no episode begins. -/
theorem Consistent.add (h : Consistent w g limbo arrived) (ha : Adds w w' j)
    (htidy : Tidy w' g'.held) (hid : ∀ id, j.id = some id → w.Rooted id ∧ j.place ≠ id.home)
    (hroots : ∀ id : GlobalId, w'.bound? id.home id = w.bound? id.home id)
    (hcur : ∀ q id?, w'.current q id? = w.current q id?) (htold : g'.told = g.told)
    (hlost : g'.lost = g.lost) (hastray : g'.astray = g.astray) (hleft : g'.left = g.left)
    (hheld : ∀ t ∈ g.held, t ∈ g'.held)
    (hbegun : ∀ u ∈ g'.spawned, u ∈ g.spawned ∨ u.1 = w.instances.length)
    (hold : ∀ r k, r ≠ w.instances.length → w'.unitsAt r k g'.spawned = w.unitsAt r k g.spawned ∧
      w'.tasksAt r k g'.held = w.tasksAt r k g.held)
    (hexact : j.remoteId? = none → j.counters.Exact)
    (hidle : ∀ id, j.remoteId? = some id → j.counters.unreported = 0)
    (hsound : j.remoteId? = none → (w'.account g' w.instances.length j).Sound)
    (hwhere : j.remoteId? = none → ∀ k, w'.unitsAt w.instances.length k g'.spawned =
      w'.tasksAt w.instances.length k g'.told + w'.tasksAt w.instances.length k g'.held +
        carriedAt j.id k (w'.net.packets ++ g'.astray ++ arrived) +
          w'.unitsAt w.instances.length k limbo) :
    Consistent w' g' limbo arrived := by
  have htoldAt : ∀ r k, r ≠ w.instances.length → w'.tasksAt r k g'.told = w.tasksAt r k g.told :=
    fun r k hr => by rw [htold]; exact ha.tasksAt hr h.ended k
  have hjn : w'.instance? w.instances.length = some j := by rw [ha.new, if_pos rfl]
  refine
    { tidy := htidy
      named := ?_
      ended := fun t ht => ha.isSome (h.ended t (htold ▸ ht))
      begun := fun u hu => ?_
      exact := fun r x hx hr => ?_
      idle := fun t x id hx hr ht => ?_
      sound := fun r x hx hr => ?_
      whereabouts := fun r x k hx hr => ?_
      closed := fun r hr => ?_
      lost := by rw [hlost, ha.net]; exact h.lost }
  · rw [hlost, hastray, hleft, ha.net]
    exact ha.named h.named hid hroots
  · rcases Multiset.mem_add.mp hu with hu | hu
    · rcases hbegun u hu with hu | hu
      · exact ha.isSome (h.begun u (Multiset.mem_add.mpr (.inl hu)))
      · rw [hu, hjn]
        rfl
    · exact ha.isSome (h.begun u (Multiset.mem_add.mpr (.inr hu)))
  · rw [ha.new] at hx
    split_ifs at hx
    · cases hx
      exact hexact hr
    · exact h.exact r x hx hr
  · rw [ha.new] at hx
    split_ifs at hx
    · cases hx
      exact hidle id hr
    · exact h.idle t x id hx hr fun hm => ht (hheld t hm)
  · by_cases hrn : r = w.instances.length
    · subst hrn
      rw [hjn] at hx
      cases hx
      exact hsound hr
    · rw [ha.new, if_neg hrn] at hx
      refine (h.sound r x hx hr).congr rfl rfl (funext fun q => ?_) (funext fun k => ?_)
      · show w'.episodes g' q x.id = w.episodes g q x.id
        unfold episodes
        rw [hcur, ha.net, hlost]
      · show w'.outstanding g' r k = w.outstanding g r k
        unfold outstanding
        rw [(hold r k hrn).1, htoldAt r k hrn]
  · by_cases hrn : r = w.instances.length
    · subst hrn
      rw [hjn] at hx
      cases hx
      exact hwhere hr k
    · rw [ha.new, if_neg hrn] at hx
      rw [(hold r k hrn).1, (hold r k hrn).2, htoldAt r k hrn, hastray, ha.net,
        ha.unitsAt hrn (fun u hu => h.begun u (Multiset.mem_add.mpr (.inr hu)))]
      exact h.whereabouts r x k hx hr
  · obtain ⟨x, hx, hx'⟩ := h.closed r (hleft ▸ hr)
    exact ⟨x, ha.old hx, hx'⟩

/-- A scope is opened; its body is held. -/
theorem Consistent.openScope (h : Consistent w g limbo arrived) (hp : w.Built p) (kind : ScopeKind) :
    Consistent (w.openScope p kind).2
      { g with
        held := w.instances.length ::ₘ g.held
        spawned := (w.instances.length, p) ::ₘ g.spawned } limbo arrived := by
  obtain ⟨j, hj⟩ : ∃ j : Instance, j =
    { place := p, kind, id := none, counters := Counters.zero.spawnAtHome p p w.known,
      exceptions := [], bound := true, wakes := 0 } := ⟨_, rfl⟩
  have hjr : j.remoteId? = none := by rw [hj]; rfl
  have hjid : j.id = none := by rw [hj]
  have hjp : j.place = p := by rw [hj]
  have hjt : j.counters.tally p = Pi.single p.index 1 := by
    rw [hj, Counters.tally_spawnAtHome Counters.exact_zero, Counters.tally_zero, zero_add]
  have hw : (w.openScope p kind).2 = (w.addInstance j).2 := by rw [hj]; rfl
  have ha : Adds w (w.addInstance j).2 j := adds_addInstance w j
  have hjn : (w.addInstance j).2.instance? w.instances.length = some j := by
    rw [ha.new, if_pos rfl]
  have htidy : Tidy (w.addInstance j).2 (w.instances.length ::ₘ g.held) := by
    have h1 := (h.tidy.addHome hjr (hjp ▸ hp)).submit (s := w.instances.length) (by rw [hjn]; rfl)
    rwa [submit_home hjn hjr, if_pos rfl] at h1
  have hakin : ∀ r s, (r = w.instances.length ↔ s ≠ w.instances.length) →
      ¬ (w.addInstance j).2.Akin r s := by
    rintro r s hrs (rfl | ⟨h1, h2⟩)
    · tauto
    · by_cases hs : s = w.instances.length
      · rw [hs, idOf?_eq hjn, hjid] at h1
        cases h1
      · rw [hrs.mpr hs, idOf?_eq hjn, hjid] at h2
        rw [h2] at h1
        cases h1
  have hnone : ∀ {us : Multiset (Serial × PlaceId)}, (∀ u ∈ us, (w.instance? u.1).isSome) →
      ∀ k, (w.addInstance j).2.unitsAt w.instances.length k us = 0 := fun hus k =>
    Multiset.countP_eq_zero.mpr fun u hu hc => by
      obtain ⟨x, hx⟩ := Option.isSome_iff_exists.mp (hus u hu)
      exact hakin _ _ (by simp [Adds.ne_new hx]) hc.1
  have hnone' : ∀ {ts : Multiset Serial}, (∀ s ∈ ts, (w.instance? s).isSome) →
      ∀ k, (w.addInstance j).2.tasksAt w.instances.length k ts = 0 := fun hts k =>
    Multiset.countP_eq_zero.mpr fun s hs hc => by
      obtain ⟨x, hx⟩ := Option.isSome_iff_exists.mp (hts s hs)
      exact hakin _ _ (by simp [Adds.ne_new hx]) hc.1
  have hsp : ∀ u ∈ g.spawned, (w.instance? u.1).isSome := fun u hu =>
    h.begun u (Multiset.mem_add.mpr (.inl hu))
  have hlim : ∀ u ∈ limbo, (w.instance? u.1).isSome := fun u hu =>
    h.begun u (Multiset.mem_add.mpr (.inr hu))
  have hplace := placeOf?_eq hjn
  rw [hw]
  refine h.add ha htidy (fun id hx => by rw [hjid] at hx; cases hx) (fun _ => rfl) (fun q id? => ?_)
    rfl rfl rfl rfl (fun t ht => Multiset.mem_cons_of_mem ht)
    (fun u hu => (Multiset.mem_cons.mp hu).symm.imp id fun hu => by rw [hu]) (fun r k hr => ?_)
    (fun _ => by rw [hj]; exact (Counters.spawnAtHome_spec Counters.exact_zero _ _ _).1)
    (fun id hx => by rw [hjr] at hx; cases hx) (fun _ => Account.sound_of_open ?_ fun q => ?_)
    fun _ k => ?_
  · refine current_congr (fun _ _ => rfl) fun id t _ hb => .inl ?_
    obtain ⟨t', x, ht', hx, -⟩ := h.tidy.registered q id _ hb
    cases ht'
    rw [ha.old hx, hx]
  · simp only [unitsAt_cons, tasksAt_cons, hakin r w.instances.length (by simp [hr]), false_and,
      if_false, add_zero]
    exact ⟨ha.unitsAt hr hsp k, ha.tasksAt hr h.tidy.made k⟩
  · funext k
    show j.counters.tally j.place k = outstanding _ _ _ k
    unfold outstanding
    rw [hjp, hjt, Pi.single_apply]
    simp only [unitsAt_cons, hnone hsp, hnone' h.ended, Akin.refl, true_and, eq_comm (a := k)]
    split_ifs <;> rfl
  · show episodes _ _ q j.id = []
    rw [hjid]
    simp [episodes, current]
  · simp only [unitsAt_cons, tasksAt_cons, hnone hsp, hnone' h.ended, hnone' h.tidy.made, hnone hlim,
      hjid, carriedAt_none, Akin.refl, true_and, sitsAt_of hplace, hjp, zero_add, add_zero]

/-- A new instance at a place, of the scope that a token names. It is bound there, and has no task. -/
structure Settles (w w' : World Pairwise β) (tok : Token) (p : PlaceId) (j : Instance) : Prop
    extends Adds w w' j where
  place : j.place = p
  id : j.id = some tok.id
  away : j.remoteId? = some tok.id
  count : j.counters.count = 0
  unreported : j.counters.unreported = 0
  bound : ∀ q id, w'.bound? q id =
    if q = p ∧ id = tok.id then some (.scope w.instances.length) else w.bound? q id

theorem Settles.home {tok : Token} (ha : Settles w w' tok p j) : tok.id.home ≠ p :=
  ha.place ▸ (Instance.remoteId?_eq_some.mp ha.away).2

/-- An instance of a scope is found at a place, or made there, or not. -/
theorem resolve_cases (hp : w.Built p) (tok : Token) :
    (∃ e, w.resolve tok p = (.error e, w)) ∨
      (∃ s, w.resolve tok p = (.ok s, w) ∧ w.bound? p tok.id = some (.scope s)) ∨
        ∃ w' j, w.resolve tok p = (.ok w.instances.length, w') ∧ w.bound? p tok.id = none ∧
          Settles w w' tok p j := by
  cases hb : w.bound? p tok.id with
  | some b =>
    cases b with
    | scope s => exact .inr (.inl ⟨s, resolve_bound hb, rfl⟩)
    | foreign => exact .inl ⟨_, resolve_foreign hb⟩
  | none =>
    by_cases hhome : tok.id.home = p
    · exact .inl ⟨_, resolve_missing hb hhome⟩
    · let j : Instance :=
        { place := p, kind := tok.kind, id := some tok.id,
          counters := Counters.zero.materialize w.known, exceptions := [], bound := true, wakes := 0 }
      refine .inr (.inr ⟨_, j, resolve_fresh hb hhome, rfl, ?_⟩)
      refine
        { new := instance?_addInstance w j
          net := rfl
          next := funext fun q => ?_
          homes := tableHome?_modifyIdentities (w.addInstance j).2 p _ fun _ _ => rfl
          place := rfl
          id := rfl
          away := Instance.remoteId?_eq_some.mpr ⟨rfl, hhome⟩
          count := rfl
          unreported := Counters.unreported_materialize _
          bound := fun q id => bound?_put (w := (w.addInstance j).2) hp q id _ }
      unfold nextOf?
      rw [table?_modifyIdentities]
      split_ifs with hq
      · rw [hq, Option.map_map]
        rfl
      · rfl

theorem Consistent.resolve (h : Consistent w g limbo arrived) (hp : w.Built p) {tok : Token}
    (hroot : w.Rooted tok.id) : Consistent (w.resolve tok p).2 g limbo arrived := by
  have htidy := h.tidy.resolve hp tok
  rcases resolve_cases hp tok with ⟨e, he⟩ | ⟨s, hs, -⟩ | ⟨w', j, hw, hb, ha⟩
  · rw [he]
    exact h
  · rw [hs]
    exact h
  · rw [hw] at htidy ⊢
    have haway : j.remoteId? ≠ none := by rw [ha.away]; exact Option.some_ne_none _
    refine h.add ha.toAdds htidy (fun id hid => ?_) (fun id => ?_) (fun q id? => ?_) rfl rfl rfl rfl
      (fun _ ht => ht) (fun _ => .inl) (fun r k hr => ⟨ha.unitsAt hr (fun u hu =>
        h.begun u (Multiset.mem_add.mpr (.inl hu))) k, ha.tasksAt hr h.tidy.made k⟩)
      (fun hr => absurd hr haway) (fun _ _ => ha.unreported) (fun hr => absurd hr haway)
      fun hr => absurd hr haway
    · obtain rfl : tok.id = id := Option.some.inj (ha.id.symm.trans hid)
      exact ⟨hroot, by rw [ha.place]; exact Ne.symm ha.home⟩
    · rw [ha.bound, if_neg]
      rintro ⟨hq, rfl⟩
      exact ha.home hq
    · cases id? with
      | none => rfl
      | some id =>
        by_cases hq : q = p ∧ id = tok.id
        · obtain ⟨rfl, rfl⟩ := hq
          have hjn : w'.instance? w.instances.length = some j := by rw [ha.new, if_pos rfl]
          simp [current, ha.bound, hb, hjn, ha.count]
        · refine current_congr (fun id' hid => ?_) fun id' t hid hbt => .inl ?_
          · cases hid
            rw [ha.bound, if_neg hq]
          · obtain ⟨t', x, ht', hx, -⟩ := h.tidy.registered q id' _ hbt
            cases ht'
            rw [ha.old hx, hx]

/-! ### Identities -/

/-- No message carries a task of a scope that has no root, or reports of it. -/
theorem carried_unrooted {pk : Packet (Message β)} (hpk : w.Addressed pk) (hid : ¬ w.Rooted id) :
    pk.content.carried (some id) = 0 ∧ pk.content.deltas? (some id) = none := by
  obtain ⟨sender, dest, m⟩ := pk
  cases m with
  | handOff tokens body =>
    refine ⟨List.countP_eq_zero.mpr fun t ht he => ?_, rfl⟩
    simp only [Option.some.injEq, decide_eq_true_eq] at he
    exact hid (he ▸ hpk t ht)
  | report id' deltas =>
    refine ⟨rfl, if_neg fun he => hid ?_⟩
    cases he
    exact hpk.1
  | failure id' payload =>
    refine ⟨if_neg fun he => hid ?_, rfl⟩
    cases he
    exact hpk.1

theorem carriedAt_unrooted {pks : List (Packet (Message β))} (hpks : ∀ pk ∈ pks, w.Addressed pk)
    (hid : ¬ w.Rooted id) (k : ℕ) : carriedAt (some id) k pks = 0 := by
  unfold carriedAt
  rw [List.sum_eq_zero]
  intro n hn
  obtain ⟨pk, hpk, rfl⟩ := List.mem_map.mp hn
  rw [(carried_unrooted (hpks pk hpk) hid).1, ite_self]

theorem reportsOf_unrooted {pks : List (Packet (Message β))} (hpks : ∀ pk ∈ pks, w.Addressed pk)
    (hid : ¬ w.Rooted id) : reportsOf (some id) pks = [] := by
  unfold reportsOf
  rw [List.filterMap_eq_nil_iff]
  intro pk hpk
  rw [(carried_unrooted (hpks pk hpk) hid).2]
  rfl

/-- Instance `s` becomes the root of a scope whose identity is `id`. -/
structure Roots (w w' : World Pairwise β) (s : Serial) (i : Instance) (id : GlobalId) : Prop where
  old : w.instance? s = some i
  unnamed : i.id = none
  home : id.home = i.place
  fresh : ∀ t, w.idOf? t ≠ some id
  new : ∀ t, w'.instance? t = if t = s then some { i with id := some id } else w.instance? t
  bound : ∀ q id', w'.bound? q id' =
    if q = i.place ∧ id' = id then some (.scope s) else w.bound? q id'
  net : w'.net = w.net
  homes : w'.tableHome? = w.tableHome?
  next : ∀ q n, w.nextOf? q = some n → ∃ n', w'.nextOf? q = some n' ∧ n.toNat ≤ n'.toNat
  used : ∃ n', w'.nextOf? id.home = some n' ∧ id.serial.toNat < n'.toNat

theorem Acquires.roots (h : Acquires w w' s i id) (ha : w.Allocated) : Roots w w' s i id where
  old := h.old
  unnamed := h.unnamed
  home := h.home
  fresh := h.fresh ha
  new := h.instance?
  bound := h.bound
  net := h.net
  homes := h.homes
  next := fun _ _ => h.advances
  used := ⟨id.serial + 1, by rw [h.next, if_pos h.home], h.toNat_succ.symm ▸ Nat.lt_succ_self _⟩

theorem prepareTransfer_cases (hb : w.Built i.place) (ha : w.Allocated)
    (hi : w.instance? s = some i) (hid : i.id = none) :
    (∃ e, w.prepareTransfer s = (.error e, w)) ∨
      ∃ id, (w.prepareTransfer s).1 = .ok ⟨id, i.kind⟩ ∧ Roots w (w.prepareTransfer s).2 s i id := by
  rcases prepareTransfer_unnamed hb hi hid with ⟨n, -, -, he⟩ | ⟨id, w', he, hacq⟩ <;> rw [he]
  · exact .inl ⟨_, rfl⟩
  · exact .inr ⟨id, rfl, hacq.roots ha⟩

namespace Roots

theorem idOf? (hc : Roots w w' s i id) (t : Serial) :
    w'.idOf? t = if t = s then some id else w.idOf? t := by
  unfold World.idOf?
  rw [hc.new]
  split_ifs <;> rfl

theorem placeOf? (hc : Roots w w' s i id) : w'.placeOf? = w.placeOf? := by
  funext t
  unfold World.placeOf?
  rw [hc.new]
  split_ifs with ht
  · rw [ht, hc.old]
    rfl
  · rfl

theorem idOf?_self (hc : Roots w w' s i id) : w.idOf? s = none := by
  rw [idOf?_eq hc.old, hc.unnamed]

/-- The scope of `s` gains no instance, and the others are not concerned. -/
theorem akin (hc : Roots w w' s i id) : w'.Akin = w.Akin := by
  funext r t
  have hs := hc.idOf?_self
  unfold Akin
  rw [hc.idOf?, hc.idOf?]
  by_cases ht : t = s
  · by_cases hr : r = s
    · simp [ht, hr]
    · simp [ht, hr, hs, Ne.symm (hc.fresh r)]
  · by_cases hr : r = s
    · simp only [ht, hr, if_false, if_true, hs]
      exact propext ⟨fun h => h.imp_right fun h => absurd h.2 (hc.fresh t), fun h =>
        h.imp_right fun h => by rw [h.2] at h; exact absurd h.1 (by simp)⟩
    · simp [ht, hr]

theorem unitsAt (hc : Roots w w' s i id) : w'.unitsAt = w.unitsAt := by
  funext r k us
  exact unitsAt_congr fun u _ => by rw [hc.akin]

theorem tasksAt (hc : Roots w w' s i id) : w'.tasksAt = w.tasksAt := by
  funext r k ts
  exact tasksAt_congr fun s _ => ⟨by rw [hc.akin], by rw [hc.placeOf?]⟩

theorem rooted (hc : Roots w w' s i id) {id' : GlobalId} : w'.Rooted id' ↔ id' = id ∨ w.Rooted id' := by
  unfold Rooted
  rw [hc.placeOf?]
  constructor
  · rintro ⟨r, hr, hp⟩
    rw [hc.idOf?] at hr
    split_ifs at hr
    · exact .inl (Option.some.inj hr).symm
    · exact .inr ⟨r, hr, hp⟩
  · rintro (rfl | ⟨r, hr, hp⟩)
    · exact ⟨s, by rw [hc.idOf?, if_pos rfl], by rw [placeOf?_eq hc.old, hc.home]⟩
    · refine ⟨r, ?_, hp⟩
      rw [hc.idOf?, if_neg]
      · exact hr
      · rintro rfl
        rw [hc.idOf?_self] at hr
        cases hr

theorem addressed (hc : Roots w w' s i id) {pk : Packet (Message β)} (h : w.Addressed pk) :
    w'.Addressed pk := by
  obtain ⟨sender, dest, m⟩ := pk
  cases m with
  | handOff tokens body => exact fun t ht => hc.rooted.mpr (.inr (h t ht))
  | report id deltas => exact ⟨hc.rooted.mpr (.inr h.1), h.2⟩
  | failure id payload => exact ⟨hc.rooted.mpr (.inr h.1), h.2⟩

theorem named (hc : Roots w w' s i id) {left : List Serial} {pks : List (Packet (Message β))}
    (hn : Named w left pks) : Named w' left pks := by
  have hold : ∀ t id', w'.idOf? t = some id' → id' ≠ id → w.idOf? t = some id' :=
    fun t id' ht hne => by
      rw [hc.idOf?] at ht
      split_ifs at ht
      · exact absurd (Option.some.inj ht).symm hne
      · exact ht
  have hself : ∀ t, w'.idOf? t = some id → t = s := fun t ht => by
    rw [hc.idOf?] at ht
    by_contra hne
    rw [if_neg hne] at ht
    exact hc.fresh t ht
  refine
    { rooted := fun t id' ht => hc.rooted.mpr ?_
      unique := fun t t' id' ht ht' hp hp' => ?_
      allocated := fun t id' ht => ?_
      bound := fun t id' ht hp hl => ?_
      addressed := fun pk hpk => hc.addressed (hn.addressed pk hpk) }
  · by_cases hid : id' = id
    · exact .inl hid
    · exact .inr (hn.rooted t id' (hold t id' ht hid))
  · rw [hc.placeOf?] at hp hp'
    by_cases hid : id' = id
    · subst hid
      rw [hself t ht, hself t' ht']
    · exact hn.unique t t' id' (hold t id' ht hid) (hold t' id' ht' hid) hp hp'
  · by_cases hid : id' = id
    · subst hid
      exact hc.used
    · obtain ⟨n, hn, hlt⟩ := hn.allocated t id' (hold t id' ht hid)
      obtain ⟨n', hn', hle⟩ := hc.next _ n hn
      exact ⟨n', hn', lt_of_lt_of_le hlt hle⟩
  · rw [hc.placeOf?] at hp
    rw [hc.bound]
    by_cases hid : id' = id
    · subst hid
      rw [if_pos ⟨hc.home, rfl⟩, hself t ht]
    · rw [if_neg fun h => hid h.2]
      exact hn.bound t id' (hold t id' ht hid) hp hl

end Roots

/-- A root gets the next identity of its place. No instance and no message has had it. -/
theorem Consistent.root (h : Consistent w g limbo arrived) (hc : Roots w w' s i id)
    (htidy : Tidy w' g.held) : Consistent w' g limbo arrived := by
  have hunrooted : ¬ w.Rooted id := fun ⟨t, ht, _⟩ => hc.fresh t ht
  have hir : i.remoteId? = none := Instance.remoteId?_eq_none.mpr fun _ hx => by
    rw [hc.unnamed] at hx
    cases hx
  have hjr : Instance.remoteId? { i with id := some id } = none :=
    Instance.remoteId?_eq_none.mpr fun _ hx => by
      cases hx
      exact hc.home
  have hjn : w'.instance? s = some { i with id := some id } := by rw [hc.new, if_pos rfl]
  have hcur : ∀ q id?, id? ≠ some id → w'.current q id? = w.current q id? := fun q id? hne => by
    refine current_congr (fun id' hx => ?_) fun id' t _ _ => ?_
    · rw [hc.bound, if_neg]
      rintro ⟨-, rfl⟩
      exact hne hx
    · by_cases hts : t = s
      · subst hts
        refine .inr ⟨fun x hx => ?_, fun x hx => ?_⟩
        · rw [hc.old] at hx
          cases hx
          exact hir
        · rw [hjn] at hx
          cases hx
          exact hjr
      · exact .inl (by rw [hc.new, if_neg hts])
  have hcurs : ∀ q, w'.current q (some id) = [] := fun q => by
    by_cases hq : q = i.place
    · have hb : w'.bound? q id = some (.scope s) := by rw [hc.bound, if_pos ⟨hq, rfl⟩]
      simp [current, hb, hjn, hjr]
    · have hb : w'.bound? q id = none := by
        rw [hc.bound, if_neg fun h => hq h.1]
        by_contra hne
        obtain ⟨b, hb⟩ := Option.ne_none_iff_exists'.mp hne
        obtain ⟨t, x, -, hx, -, hxid⟩ := h.tidy.registered q id b hb
        exact hc.fresh t (by rw [idOf?_eq hx, hxid])
      simp [current, hb]
  have hout : w'.outstanding g = w.outstanding g := by
    funext t k
    unfold outstanding
    rw [hc.unitsAt, hc.tasksAt]
  have hpks := h.named.addressed
  refine h.change hc.new htidy (by rw [hc.net]; exact hc.named h.named) (fun _ => .inl) (fun _ => .inl)
    (fun _ _ hm => hm) (fun _ => h.exact s i hc.old hir) (fun id' hr => by rw [hjr] at hr; cases hr)
    (fun r x hx hr => ?_) (fun r x k hx hr => ?_) (fun _ hl _ => hl) (fun hl => ?_)
    (by rw [hc.net]; exact h.lost)
  · by_cases hrs : r = s
    · subst hrs
      rw [hjn] at hx
      cases hx
      refine (h.sound r i hc.old hir).congr rfl rfl (funext fun q => ?_) (congrFun hout r)
      show w'.episodes g q (some id) = w.episodes g q i.id
      unfold episodes
      rw [hcurs, hc.net, hc.unnamed, reportsOf_none,
        reportsOf_unrooted (fun pk hpk => hpks pk (by simp only [List.mem_append] at hpk ⊢; tauto))
          hunrooted]
      rfl
    · rw [hc.new, if_neg hrs] at hx
      refine (h.sound r x hx hr).congr rfl rfl (funext fun q => ?_) (congrFun hout r)
      show w'.episodes g q x.id = w.episodes g q x.id
      unfold episodes
      rw [hcur, hc.net]
      rw [← idOf?_eq hx]
      exact hc.fresh r
  · rw [hc.unitsAt, hc.tasksAt, hc.net]
    by_cases hrs : r = s
    · subst hrs
      rw [hjn] at hx
      cases hx
      have hw := h.whereabouts r i k hc.old hir
      rw [hc.unnamed, carriedAt_none] at hw
      rw [carriedAt_unrooted (fun pk hpk => hpks pk (by simp only [List.mem_append] at hpk ⊢; tauto))
        hunrooted]
      exact hw
    · rw [hc.new, if_neg hrs] at hx
      exact h.whereabouts r x k hx hr
  · obtain ⟨x, hx, -, hz⟩ := h.closed s hl
    obtain rfl : i = x := Option.some.inj (hc.old.symm.trans hx)
    exact ⟨hjr, hz⟩

theorem Consistent.prepareTransfer (h : Consistent w g limbo arrived) (s : Serial) :
    Consistent (w.prepareTransfer s).2 g limbo arrived := by
  cases hi : w.instance? s with
  | none => simpa [World.prepareTransfer, hi] using h
  | some i =>
    cases hid : i.id with
    | some id =>
      rw [prepareTransfer_known hi hid]
      exact h
    | none =>
      rcases prepareTransfer_cases (h.tidy.built s i hi) h.named.allocated hi hid with ⟨e, hw⟩ | ⟨id, -, hc⟩
      · rw [hw]
        exact h
      · exact h.root hc (h.tidy.prepareTransfer s)

/-! ### Leaving -/

/-- What leaving a scope gives: the failures that the root has collected. -/
theorem leave_result (hi : w.instance? r = some i) :
    (w.leave r).1 = if i.exceptions.isEmpty then .ok () else .error (.multiple i.exceptions) := by
  have hexit : (w.exit r).instance? r = some i := by
    unfold World.exit
    rw [hi]
    dsimp only
    split <;> exact hi
  simp only [World.leave, takeExceptions_eq hexit]

/-- What leaving a scope does: the root gives up its identity, if it has one, and its failures. -/
theorem leave_spec (hi : w.instance? r = some i) :
    (((w.exit r).takeExceptions r).2).net = w.net ∧
      (((w.exit r).takeExceptions r).2).nextOf? = w.nextOf? ∧
      (∀ t, (((w.exit r).takeExceptions r).2).instance? t =
        if t = r then some { i with exceptions := [] } else w.instance? t) ∧
      ∀ q id, (((w.exit r).takeExceptions r).2).bound? q id =
        if q = i.place ∧ i.id = some id ∧ w.bound? q id = some (.scope r) then none
        else w.bound? q id := by
  rcases Option.eq_none_or_eq_some i.id with hid | ⟨id', hid⟩
  · have he : w.exit r = w := by simp [World.exit, hi, hid]
    rw [he, takeExceptions_eq hi]
    refine ⟨rfl, rfl, instance?_setInstance hi _, fun q id => ?_⟩
    rw [if_neg]
    · rfl
    · rw [hid]
      rintro ⟨-, ⟨⟩, -⟩
  · have he : w.exit r = w.unbind i.place id' r := by simp [World.exit, hi, hid]
    rw [he, takeExceptions_eq (w := w.unbind i.place id' r) hi]
    refine ⟨rfl, nextOf?_unbind _ _ _ _, fun t => ?_, fun q id => ?_⟩
    · exact instance?_setInstance (w := w.unbind i.place id' r) hi _ t
    · show (w.unbind i.place id' r).bound? q id = _
      rw [bound?_unbind, hid]
      by_cases hq : q = i.place ∧ id = id'
      · obtain ⟨rfl, rfl⟩ := hq
        simp
      · rw [if_neg fun h => hq ⟨h.1, h.2.1⟩, if_neg fun h => hq ⟨h.1, (Option.some.inj h.2.1).symm⟩]

/-- A scope without outstanding tasks is left. -/
theorem Consistent.leave (h : Consistent w g limbo arrived) (hi : w.instance? r = some i)
    (hr : i.remoteId? = none) (hz : i.isReleasable = true) :
    Consistent ((w.exit r).takeExceptions r).2 { g with left := r :: g.left } limbo arrived := by
  have hzero := (Counters.isReleased_iff (h.exact r i hi hr) i.place).mp hz
  have htidy : Tidy ((w.exit r).takeExceptions r).2 g.held :=
    (h.tidy.exit fun x hx => by rw [hi] at hx; cases hx; exact hr).takeExceptions r
  obtain ⟨hnet, hnext, hinst, hbound⟩ := leave_spec hi
  generalize ((w.exit r).takeExceptions r).2 = w' at htidy hnet hnext hinst hbound ⊢
  have hnames : Namesakes w w' := namesakes_of_set hi hinst rfl rfl
  have hold : ∀ t x, w'.instance? t = some x → ∃ y, w.instance? t = some y ∧ y.place = x.place ∧
      y.id = x.id ∧ y.counters = x.counters := fun t x hx => by
    rw [hinst] at hx
    split_ifs at hx with ht
    · cases hx
      exact ⟨i, ht ▸ hi, rfl, rfl, rfl⟩
    · exact ⟨x, hx, rfl, rfl, rfl⟩
  have hself : w'.instance? r = some { i with exceptions := [] } := by rw [hinst, if_pos rfl]
  -- The binding that goes is of a root, so the episodes that go on are the same.
  have hcur : ∀ q id?, w'.current q id? = w.current q id? := fun q id? => by
    cases id? with
    | none => rfl
    | some id =>
      by_cases hc : q = i.place ∧ i.id = some id ∧ w.bound? q id = some (.scope r)
      · have hb : w'.bound? q id = none := by rw [hbound, if_pos hc]
        simp [current, hb, hc.2.2, hi, hr]
      · refine current_congr (fun id' hid' => ?_) fun id' t hid' hb => ?_
        · cases hid'
          rw [hbound, if_neg hc]
        · by_cases ht : t = r
          · subst ht
            refine .inr ⟨fun x hx => ?_, fun x hx => ?_⟩
            · obtain rfl := Option.some.inj (hi.symm.trans hx)
              exact hr
            · obtain rfl := Option.some.inj (hself.symm.trans hx)
              exact hr
          · exact .inl (by rw [hinst, if_neg ht])
  have hout : w'.outstanding { g with left := r :: g.left } = w.outstanding g := by
    funext t k
    unfold outstanding
    rw [hnames.unitsAt, hnames.tasksAt]
  refine h.change hinst htidy
    { rooted := by rw [hnames.ids, hnames.rooted]; exact h.named.rooted
      unique := by rw [hnames.ids, hnames.places]; exact h.named.unique
      allocated := h.named.allocated.congr hnames.ids hnext
      bound := fun t id ht hp hl => ?_
      addressed := by rw [hnames.addressed, hnet]; exact h.named.addressed }
    (fun _ => .inl) (fun _ => .inl) (fun _ _ hm => hm) (fun _ => h.exact r i hi hr)
    (fun id hx => (Option.some_ne_none id (hx.symm.trans hr)).elim) (fun t x hx hx' => ?_)
    (fun t x k hx hx' => ?_) (fun t ht htr => (List.mem_cons.mp ht).resolve_left htr)
    (fun _ => ⟨hr, hzero⟩)
    (by rw [hnet]; exact h.lost)
  · rw [hnames.ids] at ht
    rw [hnames.places] at hp
    simp only [List.mem_cons, not_or] at hl
    have hb := h.named.bound t id ht hp hl.2
    rw [hbound, if_neg]
    · exact hb
    · rintro ⟨-, -, hc⟩
      rw [hb] at hc
      cases hc
      exact hl.1 rfl
  · obtain ⟨y, hy, hp, hid, hc⟩ := hold t x hx
    refine (h.sound t y hy ((Instance.remoteId?_congr hp hid).trans hx')).congr hp.symm ?_
      (funext fun q => ?_) (congrFun hout t)
    · show x.counters.tally x.place = y.counters.tally y.place
      rw [hp, hc]
    · show w'.episodes _ q x.id = w.episodes g q y.id
      unfold episodes
      rw [hcur, hnet, hid]
  · obtain ⟨y, hy, hp, hid, -⟩ := hold t x hx
    rw [hnames.unitsAt, hnames.tasksAt, hnet, ← hid]
    exact h.whereabouts t y k hy ((Instance.remoteId?_congr hp hid).trans hx')

end World

end Quiescence
