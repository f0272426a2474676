/-
# Tasks registered with several scopes

A task may be registered with instances that live anywhere. At another place
every scope is found, or an instance of it is made (`Finds`), and it is these
instances that are told of the end; so what the spawn charges is taken off
where it was charged. The shortcut for the place itself tells the instances
that were named: what they take off is at their own places, which is the same
only for those that live there.

At a place that does not find a scope, the task is dropped. The scopes before
the one that is missing are told; that one and those after it are charged for
good.

* `acceptAll_front`: acceptance, up to the first scope that is not found.
* `delivered`, `dropped`: what a hand-off does when it arrives.
* `completed_balance`: a task from its spawn to its end.
* `dropped_balance`: a task that is dropped.
-/
import Quiescence.Proofs.NetTally
import Quiescence.Proofs.Wakes

namespace Quiescence

namespace World

variable {β : Type} {w w' w₁ w₂ : World Pairwise β} {g g' : Ledger β} {r s t : Serial}
  {i j : Instance} {p q target : PlaceId} {id : GlobalId} {fs front back : List Serial}
  {tok : Token} {tokens : List Token} {task : Task β} {body : β}
  {limbo : Multiset (Serial × PlaceId)} {arrived : List (Packet (Message β))}

/-! ### Finding scopes -/

/-- The place has an instance of the scope, or can make one. -/
def Finds (w : World Pairwise β) (p : PlaceId) (id : GlobalId) : Prop :=
  match w.bound? p id with
  | some (.scope _) => True
  | some .foreign => False
  | none => id.home ≠ p

instance (w : World Pairwise β) (p : PlaceId) (id : GlobalId) : Decidable (w.Finds p id) := by
  unfold Finds
  split <;> infer_instance

theorem finds_iff (w : World Pairwise β) (p : PlaceId) (tok : Token) :
    w.Finds p tok.id ↔ ∃ s, (w.resolve tok p).1 = .ok s := by
  unfold Finds
  cases hb : w.bound? p tok.id with
  | some b =>
    cases b with
    | scope s => simp [resolve_bound hb]
    | foreign => simp [resolve_foreign hb]
  | none =>
    by_cases hp : tok.id.home = p
    · simp [resolve_missing hb hp, hp]
    · simp [resolve_fresh hb hp, hp]

theorem finds_congr (h : w'.bound? p id = w.bound? p id) : w'.Finds p id ↔ w.Finds p id := by
  unfold Finds
  rw [h]

/-- An instance that takes its identity again could have been made anew. -/
theorem finds_submit (w : World Pairwise β) (s : Serial) (q : PlaceId) (id : GlobalId) :
    (w.submit s).2.Finds q id ↔ w.Finds q id := by
  cases hi : w.instance? s with
  | none => simp [World.submit, hi]
  | some i =>
    cases hr : i.remoteId? with
    | none => rw [submit_home hi hr]
    | some id' =>
      by_cases hb : i.bound = true
      · rw [submit_bound hi hr hb]
        exact finds_congr rfl
      · rw [Bool.not_eq_true] at hb
        cases hf : w.bound? i.place id' with
        | some b => rw [submit_refuses hi hr hb hf]
        | none =>
          rw [submit_rebinds hi hr hb hf]
          unfold Finds
          rw [bound?_modifyIdentities, bound?_setInstance, table?_setInstance]
          by_cases hq : q = i.place
          · subst hq
            rw [if_pos rfl]
            rw [bound?_eq] at hf ⊢
            cases htable : w.table? i.place with
            | none => simp
            | some table =>
              rw [htable, Option.bind_some] at hf
              rw [Option.bind_some, Option.bind_some, Registry.get?_put]
              by_cases hid : id = id'
              · subst hid
                simpa [hf] using (Instance.remoteId?_eq_some.mp hr).2
              · rw [if_neg hid]
          · rw [if_neg hq]

theorem finds_accept (hp : w.Built p) (tok : Token) (q : PlaceId) (id : GlobalId) :
    (w.accept tok p).2.Finds q id ↔ w.Finds q id := by
  have hres : (w.resolve tok p).2.Finds q id ↔ w.Finds q id := by
    rcases resolve_cases hp tok with ⟨e, he⟩ | ⟨s, hs, -⟩ | ⟨w', j, hw, hb, ha⟩
    · rw [he]
    · rw [hs]
    · rw [hw]
      by_cases hq : q = p ∧ id = tok.id
      · obtain ⟨rfl, rfl⟩ := hq
        simpa [Finds, ha.bound, hb] using ha.home
      · exact finds_congr (by rw [ha.bound, if_neg hq])
  unfold World.accept
  rcases hw : w.resolve tok p with ⟨_ | s, w₁⟩ <;> rw [hw] at hres
  · exact hres
  · exact (finds_submit w₁ s q id).trans hres

/-- A scope that is found accepts the task, with an instance at the place. -/
theorem accept_found (ho : Orderly w) (hp : w.Built p) (hf : w.Finds p tok.id) :
    ∃ s, (w.accept tok p).1 = .ok s ∧ (w.accept tok p).2.idOf? s = some tok.id ∧
      (w.accept tok p).2.placeOf? s = some p := by
  obtain ⟨s₀, hs₀⟩ := (finds_iff w p tok).mp hf
  have hacc : ∀ {s : Serial} {w' : World Pairwise β} {i : Instance}, w.resolve tok p = (.ok s, w') →
      w'.instance? s = some i → i.place = p → i.id = some tok.id →
      ∃ s, (w.accept tok p).1 = .ok s ∧ (w.accept tok p).2.idOf? s = some tok.id ∧
        (w.accept tok p).2.placeOf? s = some p := fun {s w' i} hw hi hip hid => by
    have hn := namesakes_submit w' s
    rw [World.accept, hw]
    exact ⟨s, rfl, by rw [hn.ids, idOf?_eq hi, hid], by rw [hn.places, placeOf?_eq hi, hip]⟩
  rcases resolve_cases hp tok with ⟨e, he⟩ | ⟨s, hs, hb⟩ | ⟨w', j, hw, -, ha⟩
  · rw [he] at hs₀
    cases hs₀
  · obtain ⟨i, hi, hip, hid⟩ := ho.registered p tok.id s hb
    exact hacc hs hi hip hid
  · exact hacc hw (by rw [ha.new, if_pos rfl]) ha.place ha.id

/-- A scope that is not found accepts nothing. -/
theorem accept_missing (hf : ¬ w.Finds p tok.id) : ∃ e, w.accept tok p = (.error e, w) := by
  rw [finds_iff] at hf
  cases hb : w.bound? p tok.id with
  | some b =>
    cases b with
    | scope s => exact absurd ⟨s, by rw [resolve_bound hb]⟩ hf
    | foreign => exact ⟨_, by rw [World.accept, resolve_foreign hb]⟩
  | none =>
    by_cases hp : tok.id.home = p
    · exact ⟨_, by rw [World.accept, resolve_missing hb hp]⟩
    · exact absurd ⟨_, by rw [resolve_fresh hb hp]⟩ hf

/-! ### Acceptance -/

/-- A task has been accepted under some tokens at a place, by instances there. -/
structure Accepted (w w' : World Pairwise β) (p : PlaceId) (tokens : List Token)
    (accepted : List Serial) : Prop where
  moved : Moved w w'
  tokened : Tokened w' accepted tokens
  places : ∀ s ∈ accepted, w'.placeOf? s = some p
  netTally : ∀ r k, w.IsRoot r → w'.netTally r k = w.netTally r k
  still : Still w w'
  finds : ∀ q id, w'.Finds q id ↔ w.Finds q id

/-- As long as the scopes are found, they accept. -/
theorem acceptAll_front (ho : Orderly w) (hp : w.Built p) (ht : ∀ tok ∈ tokens, w.InUse tok.id)
    (hf : ∀ tok ∈ tokens, w.Finds p tok.id) : ∃ accepted w', Accepted w w' p tokens accepted ∧
      ∀ rest, w.acceptAll p (tokens ++ rest) =
        ((accepted ++ (w'.acceptAll p rest).1.1, (w'.acceptAll p rest).1.2),
          (w'.acceptAll p rest).2) := by
  induction tokens generalizing w with
  | nil =>
    exact ⟨[], w, ⟨.refl w, .nil, by simp, fun _ _ _ => rfl, .refl w, fun _ _ => Iff.rfl⟩, fun _ => rfl⟩
  | cons tok tokens ih =>
    have htok := ht tok (List.mem_cons_self ..)
    have hm := moved_accept hp htok
    have hfinds := finds_accept hp tok
    have htally := fun r k hr => netTally_accept ho hp htok (r := r) hr k
    have hstill := still_accept w tok p
    obtain ⟨s, hs, hid, hplace⟩ := accept_found ho hp (hf tok (List.mem_cons_self ..))
    rcases hw : w.accept tok p with ⟨o, w₁⟩
    rw [hw] at hm hfinds htally hstill hs hid hplace
    obtain rfl : o = .ok s := hs
    obtain ⟨accepted, w', ha, hall⟩ := ih (hm.orderly ho) (hm.lasts.built hp)
      (fun x hx => hm.lasts.inUse (ht x (List.mem_cons_of_mem _ hx)))
      fun x hx => (hfinds p x.id).mpr (hf x (List.mem_cons_of_mem _ hx))
    refine ⟨s :: accepted, w',
      { moved := hm.trans ha.moved
        tokened := .cons (ha.moved.lasts.idOf? hid) ha.tokened
        places := fun x hx => ?_
        netTally := fun r k hr =>
          (ha.netTally r k (hm.lasts.isRoot hr)).trans (htally r k hr)
        still := hstill.trans ha.still
        finds := fun q id => (ha.finds q id).trans (hfinds q id) }, fun rest => ?_⟩
    · rcases List.mem_cons.mp hx with rfl | hx
      · exact ha.moved.lasts.placeOf? hplace
      · exact ha.places x hx
    · rw [List.cons_append, World.acceptAll, hw]
      simp only [hall rest, List.cons_append]

/-- The instances that have accepted a task at a place count it there, as those did that gave the
tokens. -/
theorem tasksAt_tokened {accepted : List Serial} (ha : Tokened w accepted tokens)
    (hp : ∀ s ∈ accepted, w.placeOf? s = some p) (hf : Tokened w fs tokens) (r : Serial) (k : ℕ) :
    w.tasksAt r k ↑accepted = w.unitsAt r k (units fs p) := by
  induction hf generalizing accepted with
  | nil =>
    cases ha
    rfl
  | cons hs _ ih =>
    cases ha with
    | cons ht ha =>
      rw [← Multiset.cons_coe, tasksAt_cons, units_cons, unitsAt_cons,
        ih ha fun s hs => hp s (List.mem_cons_of_mem _ hs)]
      simp only [akin_iff ht, akin_iff hs, sitsAt_of (hp _ (List.mem_cons_self ..))]

/-- A task of instances at a place is meant for it. -/
theorem tasksAt_placed (hp : ∀ s ∈ fs, w.placeOf? s = some p) (r : Serial) (k : ℕ) :
    w.tasksAt r k ↑fs = w.unitsAt r k (units fs p) := by
  induction fs with
  | nil => rfl
  | cons s fs ih =>
    rw [← Multiset.cons_coe, tasksAt_cons, units_cons, unitsAt_cons,
      ih fun t ht => hp t (List.mem_cons_of_mem _ ht)]
    simp only [sitsAt_of (hp s (List.mem_cons_self ..))]

theorem Tokened.isSome (h : Tokened w fs tokens) : ∀ s ∈ fs, (w.instance? s).isSome := by
  induction h with
  | nil => simp
  | cons hs _ ih =>
    intro t ht
    rcases List.mem_cons.mp ht with rfl | ht
    · obtain ⟨i, hi, -⟩ := Option.bind_eq_some_iff.mp hs
      rw [hi]
      rfl
    · exact ih t ht

theorem units_append (fs fs' : List Serial) (p : PlaceId) :
    units (fs ++ fs') p = units fs p + units fs' p := by
  simp [units]

/-- Tasks are of the scopes that they were of. -/
theorem Lasts.unitsAt (h : Lasts w w') (ho : Orderly w') (hr : w.IsRoot r)
    (hfs : ∀ s ∈ fs, (w.instance? s).isSome) (k : ℕ) :
    w'.unitsAt r k (units fs p) = w.unitsAt r k (units fs p) :=
  unitsAt_congr fun u hu => by
    obtain ⟨s, hs, rfl⟩ := List.mem_map.mp (Multiset.mem_coe.mp hu)
    exact h.akin ho hr.isSome (hfs s hs)

theorem Lasts.tasksAt (h : Lasts w w') (ho : Orderly w') (hr : w.IsRoot r)
    (hfs : ∀ s ∈ fs, (w.instance? s).isSome) (k : ℕ) :
    w'.tasksAt r k ↑fs = w.tasksAt r k ↑fs :=
  tasksAt_congr fun s hs => by
    obtain ⟨i, hi⟩ := Option.isSome_iff_exists.mp (hfs s (Multiset.mem_coe.mp hs))
    obtain ⟨j, hj, hp, -⟩ := h.old s i hi
    exact ⟨h.akin ho hr.isSome (by rw [hi]; rfl), by rw [placeOf?_eq hj, placeOf?_eq hi, hp]⟩

/-! ### From the spawn to the end -/

/-- A task for another place is charged to its scopes there, and carries a token of each. -/
theorem spawnAt_away (ho : Orderly w) (hne : target ≠ p)
    (hs : w.spawnAt task p target = (.ok (), w₁)) : ∃ tokens,
      (w.prepareAll task.finishes).1 = .ok tokens ∧ Tokened w₁ task.finishes tokens ∧
      Moved w w₁ ∧ w₁.Akin = w.Akin ∧ ∀ r k, w.IsRoot r →
        w₁.netTally r k = w.netTally r k + w.unitsAt r k (units task.finishes target) := by
  obtain ⟨h1, h2⟩ := moved_prepareAll ho task.finishes
  have h3 := akin_prepareAll ho task.finishes
  have h4 := fun r k hr => netTally_prepareAll ho (r := r) hr task.finishes k
  rw [World.spawnAt, if_neg hne] at hs
  rcases hw : w.prepareAll task.finishes with ⟨_ | tokens, w₀⟩ <;> rw [hw] at hs h1 h2 h3 h4
  · cases hs
  · simp only at hs h1 h2 h3 h4
    have hspawned := moved_spawnAll w₀ task.finishes target
    have htok := (h2 tokens rfl).lasts hspawned.lasts
    rcases hsend : (w₀.spawnAll task.finishes target).send p target
      (.handOff tokens task.body) with e | w₂
    · rw [hsend] at hs
      cases hs
    · rw [hsend] at hs
      cases hs
      obtain ⟨hm, heq⟩ := moved_send htok.inUse hsend
      have hnet : w₁.netTally = (w₀.spawnAll task.finishes target).netTally := by
        rw [heq]
        refine netTally_renet rfl fun id? => ?_
        simp [Message.deltas?]
      have hakin : w₀.unitsAt = w.unitsAt := by
        funext r k us
        exact unitsAt_congr fun _ _ => by rw [h3]
      refine ⟨tokens, rfl, htok.lasts hm.lasts, (h1.trans hspawned).trans hm, ?_, fun r k hr => ?_⟩
      · rw [heq]
        exact ((steady_spawnAll w₀ task.finishes target).akin).trans h3
      · rw [hnet, netTally_spawnAll (h1.orderly ho) (h1.lasts.isRoot hr), h4 r k hr, hakin]

/-- A hand-off reports nothing, so taking it off its lane changes nothing. -/
theorem take_handOff {lane : Lane} {sender : PlaceId} {net : Pairwise (Message β)}
    (ht : Network.take w.net lane = some (⟨sender, target, .handOff tokens body⟩, net)) :
    ({ w with net } : World Pairwise β).netTally = w.netTally := by
  obtain ⟨before, after, hp, rfl, -⟩ := Pairwise.take_split ht
  refine netTally_renet rfl fun id? => ?_
  rw [hp]
  simp [Message.deltas?]

theorem ground_take {lane : Lane} {pk : Packet (Message β)} {net : Pairwise (Message β)}
    (ht : Network.take w.net lane = some (pk, net)) : Ground w { w with net } := by
  obtain ⟨before, after, -, rfl, -⟩ := Pairwise.take_split ht
  exact ⟨rfl, rfl⟩

/-- A hand-off for a place that was built is applied there. -/
theorem deliver_handOff (hp : w.Built target) {lane : Lane} {sender : PlaceId}
    {net : Pairwise (Message β)}
    (ht : Network.take w.net lane = some (⟨sender, target, .handOff tokens body⟩, net)) :
    ∃ w', w.deliver lane = some w' ∧
      Alike (({ w with net } : World Pairwise β).receiveTask target tokens body) w' ∧
      w'.jobs = (({ w with net } : World Pairwise β).receiveTask target tokens body).jobs := by
  obtain ⟨site, hsite⟩ := Option.ne_none_iff_exists'.mp (site_of_built hp)
  have hsite' : ({ w with net } : World Pairwise β).site? target = some site := hsite
  refine ⟨(({ w with net } : World Pairwise β).receiveTask target tokens body).modifySite target
    fun site => { site with stats := site.stats.deliver }, ?_,
    alike_modifySite _ _ _ fun _ => rfl, rfl⟩
  simp only [World.deliver, ht, World.receive, hsite']

/-- A task that arrives where all its scopes are found is accepted by each, and waits to be run. -/
theorem delivered (ho : Orderly w) (hp : w.Built target) {lane : Lane} {sender : PlaceId}
    {net : Pairwise (Message β)}
    (ht : Network.take w.net lane = some (⟨sender, target, .handOff tokens body⟩, net))
    (hf : ∀ tok ∈ tokens, w.Finds target tok.id) : ∃ w' accepted, w.deliver lane = some w' ∧
      w'.jobs = w.jobs ++ [⟨target, accepted, body⟩] ∧ Moved w w' ∧ Tokened w' accepted tokens ∧
      (∀ s ∈ accepted, w'.placeOf? s = some target) ∧
      ∀ r k, w.IsRoot r → w'.netTally r k = w.netTally r k := by
  obtain ⟨hm, hu, -⟩ := moved_take ho ht
  obtain ⟨accepted, w₁, ha, hall⟩ := acceptAll_front (hm.orderly ho) (hm.lasts.built hp)
    (fun tok h => hu _ ⟨tok, h, rfl⟩) fun tok h => (finds_congr rfl).mpr (hf tok h)
  have hacc := hall []
  rw [List.append_nil] at hacc
  simp only [World.acceptAll, List.append_nil] at hacc
  obtain ⟨w', hw', hlike, hjobs⟩ := deliver_handOff hp ht
  rw [World.receiveTask, hacc] at hlike hjobs
  have hlike := (alike_enqueue w₁ ⟨target, accepted, body⟩).trans hlike
  have hm' := moved_of_alike hlike
  refine ⟨w', accepted, hw', ?_, (hm.trans ha.moved).trans hm', ha.tokened.lasts hm'.lasts,
    fun s hs => hm'.lasts.placeOf? (ha.places s hs), fun r k hr => ?_⟩
  · rw [hjobs]
    show w₁.jobs ++ _ = _
    rw [ha.still.jobs]
  · rw [netTally_alike hlike, ha.netTally r k (hm.lasts.isRoot hr), take_handOff ht]

/-- A task that arrives where one of its scopes is not found is dropped. It is taken off the scopes
before that one. -/
theorem dropped (ho : Orderly w) (hp : w.Built target) {lane : Lane} {sender : PlaceId}
    {net : Pairwise (Message β)} {rest : List Token}
    (ht : Network.take w.net lane =
      some (⟨sender, target, .handOff (tokens ++ tok :: rest) body⟩, net))
    (hf : ∀ tok ∈ tokens, w.Finds target tok.id) (hbad : ¬ w.Finds target tok.id)
    (hfs : Tokened w fs tokens) : ∃ w', w.deliver lane = some w' ∧ w'.jobs = w.jobs ∧
      ∀ r k, w.IsRoot r → w.Answers r →
        w'.netTally r k = w.netTally r k - w.unitsAt r k (units fs target) := by
  obtain ⟨hm, hu, -⟩ := moved_take ho ht
  have hknown : ∀ tok ∈ tokens, ({ w with net } : World Pairwise β).InUse tok.id := fun tok h =>
    hu _ ⟨tok, List.mem_append_left _ h, rfl⟩
  obtain ⟨accepted, w₁, ha, hall⟩ := acceptAll_front (hm.orderly ho) (hm.lasts.built hp) hknown
    fun tok h => (finds_congr rfl).mpr (hf tok h)
  have hacc := hall (tok :: rest)
  have hmissing : ¬ w₁.Finds target tok.id := fun h =>
    hbad ((finds_congr rfl).mp ((ha.finds target tok.id).mp h))
  obtain ⟨e, he⟩ := accept_missing hmissing
  simp only [World.acceptAll, he, List.append_nil] at hacc
  obtain ⟨w', hw', hlike, hjobs⟩ := deliver_handOff hp ht
  rw [World.receiveTask, hacc] at hlike hjobs
  refine ⟨w', hw', ?_, fun r k hr hn => ?_⟩
  · rw [hjobs, jobs_tellAll, ha.still.jobs]
  · have hm₁ := hm.trans ha.moved
    have ho₁ := hm₁.orderly ho
    have hn₁ := hn.lasts hr hm₁.lasts ((ground_take ht).trans ha.still.ground)
    rw [netTally_alike hlike, netTally_tellAll ho₁ (hm₁.lasts.isRoot hr) hn₁,
      tasksAt_tokened ha.tokened ha.places (hfs.lasts hm₁.lasts),
      hm₁.lasts.unitsAt ho₁ hr hfs.isSome, ha.netTally r k (hm.lasts.isRoot hr), take_handOff ht]

/-! ### Balances -/

/-- What a stretch of a run adds to the net tally of a scope. -/
def gain (w w' : World Pairwise β) (r : Serial) (k : ℕ) : ℤ := w'.netTally r k - w.netTally r k

/-- A task on its way finds its scopes at any place. -/
theorem Consistent.finds (h : Consistent w g limbo arrived) {sender dest : PlaceId}
    (hpk : ⟨sender, dest, .handOff tokens body⟩ ∈ w.net.packets) (p : PlaceId) :
    ∀ tok ∈ tokens, w.Finds p tok.id := fun tok ht => by
  obtain ⟨before, after, hp⟩ := List.append_of_mem hpk
  have hroot := h.named.addressed ⟨sender, dest, .handOff tokens body⟩ (by simp [hpk]) tok ht
  have hcarried : (Message.handOff tokens body).carried (some tok.id) ≠ 0 := by
    simp only [Message.carried]
    exact (List.countP_pos_iff.mpr ⟨tok, ht, by simp⟩).ne'
  have hres := (h.arrive hp fun _ => rfl).resolve_ok (p := p) (List.mem_cons_self ..) hroot hcarried
  exact (finds_congr rfl).mp ((finds_iff (w.withPackets (before ++ after)) p tok).mpr hres)

theorem Steps.operations (h : Steps w g w' g') : Operations w w' :=
  Relation.ReflTransGen.lift (fun a : World Pairwise β × Ledger β => a.1)
    (fun _ _ hs => hs.operates) _ _ h

/-- What a task that ends without a failure takes off. -/
theorem gain_complete (ho : Orderly w) (hr : w.IsRoot r) (hn : w.Answers r) (job : Job β) (k : ℕ) :
    gain w (w.complete job none) r k = - w.tasksAt r k ↑job.finishes := by
  have hlike : Alike (w.tellAll job.finishes) (w.complete job none) :=
    alike_modifySite _ _ _ fun _ => rfl
  rw [gain, netTally_alike hlike, netTally_tellAll ho hr hn]
  omega

/-- A task sent to another place, where all its scopes are found: what its spawn charges is taken off
by its end, whatever happens in between. -/
theorem away_balance (ho : Orderly w) (hne : target ≠ p) (hb : w.Built target)
    (hs : w.spawnAt task p target = (.ok (), w₁)) : ∃ tokens,
      (w.prepareAll task.finishes).1 = .ok tokens ∧ ∀ w₂ net, Moved w₁ w₂ →
        Network.take w₂.net ⟨some p, target⟩ =
          some (⟨p, target, .handOff tokens task.body⟩, net) →
        (∀ tok ∈ tokens, w₂.Finds target tok.id) →
        ∃ w₃ accepted, w₂.deliver ⟨some p, target⟩ = some w₃ ∧
          w₃.jobs = w₂.jobs ++ [⟨target, accepted, task.body⟩] ∧
          ∀ w₄, Moved w₃ w₄ → ∀ r k, w.IsRoot r → w₄.Answers r →
            gain w w₁ r k + gain w₂ w₃ r k +
              gain w₄ (w₄.complete ⟨target, accepted, task.body⟩ none) r k = 0 := by
  obtain ⟨tokens, hok, htok, hm₁, hakin, hspawn⟩ := spawnAt_away ho hne hs
  refine ⟨tokens, hok, fun w₂ net hm₂ ht hf => ?_⟩
  have hm₀₂ := hm₁.trans hm₂
  obtain ⟨w₃, accepted, hd, hjobs, hm₃, hacc, hplaces, hsame⟩ :=
    delivered (hm₀₂.orderly ho) (hm₀₂.lasts.built hb) ht hf
  refine ⟨w₃, accepted, hd, hjobs, fun w₄ hm₄ r k hr hn => ?_⟩
  have ho₁ := hm₁.orderly ho
  have hm₁₄ := (hm₂.trans hm₃).trans hm₄
  have ho₄ := hm₁₄.orderly ho₁
  have hr₁ := hm₁.lasts.isRoot hr
  -- those told are the instances that accepted, and count as those that were charged
  have htasks : w₄.tasksAt r k ↑accepted = w.unitsAt r k (units task.finishes target) := by
    rw [tasksAt_tokened (hacc.lasts hm₄.lasts) (fun s hs => hm₄.lasts.placeOf? (hplaces s hs))
      (htok.lasts hm₁₄.lasts), hm₁₄.lasts.unitsAt ho₄ hr₁ htok.isSome]
    exact unitsAt_congr fun _ _ => by rw [hakin]
  rw [gain_complete ho₄ (hm₁₄.lasts.isRoot hr₁) hn, htasks, gain, gain, hspawn r k hr,
    hsame r k (hm₀₂.lasts.isRoot hr)]
  omega

/-- A task for the place itself: its end takes off what its instances count as, at their places. -/
theorem here_balance (ho : Orderly w) (hfs : ∀ s ∈ task.finishes, (w.instance? s).isSome)
    {w₄ : World Pairwise β} (hm : Moved (w.spawnHere task p) w₄) (hr : w.IsRoot r)
    (hn : w₄.Answers r) (k : ℕ) :
    gain w (w.spawnHere task p) r k +
        gain w₄ (w₄.complete ⟨p, task.finishes, task.body⟩ none) r k =
      w.unitsAt r k (units task.finishes p) - w.tasksAt r k ↑task.finishes := by
  have hm₁ := moved_spawnHere w task p
  have hm₀₄ := hm₁.trans hm
  have hspawned := moved_spawnAll w task.finishes p
  have hspawn : (w.spawnHere task p).netTally r k =
      w.netTally r k + w.unitsAt r k (units task.finishes p) := by
    rw [World.spawnHere, netTally_alike (alike_enqueue _ _),
      netTally_submitAll (hspawned.orderly ho) (hspawned.lasts.isRoot hr),
      netTally_spawnAll ho hr]
  rw [gain_complete (hm₀₄.orderly ho) (hm₀₄.lasts.isRoot hr) hn,
    hm₀₄.lasts.tasksAt (hm₀₄.orderly ho) hr hfs, gain, hspawn]
  omega

/-- A task handed over and completed leaves the net tally of each of its scopes as it was, whatever
happens in between, if it was sent to another place: wherever its instances live. The shortcut for
the place itself charges the scopes there, and takes off at the places of the instances; that is the
same if they live there. -/
theorem completed_balance (h : Reachable w g) (hf : ∀ s ∈ task.finishes, s ∈ g.held)
    (hb : w.Built target) (hs : w.spawnAt task p target = (.ok (), w₁)) :
    (target ≠ p → ∃ tokens, (w.prepareAll task.finishes).1 = .ok tokens ∧
      ∀ w₂ g₂ net, Steps w₁ (w.afterSpawn g task p target) w₂ g₂ →
        Network.take w₂.net ⟨some p, target⟩ =
          some (⟨p, target, .handOff tokens task.body⟩, net) →
        ∃ w₃ accepted, w₂.deliver ⟨some p, target⟩ = some w₃ ∧
          w₃.jobs = w₂.jobs ++ [⟨target, accepted, task.body⟩] ∧
          ∀ w₄, Operations w₃ w₄ → ∀ r k, w.IsRoot r → w₄.Answers r →
            gain w w₁ r k + gain w₂ w₃ r k +
              gain w₄ (w₄.complete ⟨target, accepted, task.body⟩ none) r k = 0) ∧
    (target = p → w₁.jobs = w.jobs ++ [⟨p, task.finishes, task.body⟩] ∧
      ∀ w₄, Operations w₁ w₄ → ∀ r k, w.IsRoot r → w₄.Answers r →
        gain w w₁ r k + gain w₄ (w₄.complete ⟨p, task.finishes, task.body⟩ none) r k =
            w.unitsAt r k (units task.finishes p) - w.tasksAt r k ↑task.finishes ∧
          ((∀ s ∈ task.finishes, w.placeOf? s = some p) →
            w.unitsAt r k (units task.finishes p) = w.tasksAt r k ↑task.finishes)) := by
  have hc := h.consistent
  have ho := hc.orderly
  refine ⟨fun hne => ?_, fun htp => ?_⟩
  · obtain ⟨tokens, hok, hall⟩ := away_balance ho hne hb hs
    have h₁ : Reachable w₁ (w.afterSpawn g task p target) := by
      have := h.step (.spawn w g task p target fun s hx => ⟨hf s hx, fun htp => absurd htp hne⟩)
      rwa [hs] at this
    refine ⟨tokens, hok, fun w₂ g₂ net hrun ht => ?_⟩
    have h₂ := h₁.steps hrun
    obtain ⟨before, after, hp, -⟩ := Pairwise.take_split ht
    have hpk : ⟨p, target, .handOff tokens task.body⟩ ∈ w₂.net.packets := by
      rw [hp]
      simp
    have ho₂ := h₂.consistent.orderly
    obtain ⟨w₃, accepted, hd, hjobs, hend⟩ :=
      hall w₂ net ((Steps.operations hrun).moved h₁.consistent.orderly) ht
        (h₂.consistent.finds hpk target)
    exact ⟨w₃, accepted, hd, hjobs, fun w₄ hops =>
      hend w₄ (hops.moved ((moved_deliver ho₂ hd).orderly ho₂))⟩
  · subst htp
    obtain rfl : w.spawnHere task target = w₁ := by
      rw [World.spawnAt, if_pos rfl] at hs
      exact (Prod.mk.inj hs).2
    refine ⟨?_, fun w₄ hops r k hr hn => ⟨?_, fun hp => (tasksAt_placed hp r k).symm⟩⟩
    · have hstill : Still w ((w.spawnAll task.finishes target).submitAll task.finishes) :=
        (still_spawnAll w _ _).trans (still_submitAll _ _)
      show _ ++ _ = _
      rw [hstill.jobs]
    · exact here_balance ho (fun s hx => hc.tidy.made s (hf s hx))
        (hops.moved ((moved_spawnHere w task target).orderly ho)) hr hn k

/-- Two scopes, each with its instance at home: one at place 0, one at place 1. -/
def sideBySide : World Pairwise Unit × Ledger Unit :=
  let w₀ : World Pairwise Unit := start (Pairwise.empty 2) 2 .plain 0
  let w₁ := (w₀.openScope ⟨0⟩ .plain).2
  let g₁ := w₀.afterOpen .empty ⟨0⟩
  ((w₁.openScope ⟨1⟩ .plain).2, w₁.afterOpen g₁ ⟨1⟩)

theorem reachable_sideBySide : Reachable sideBySide.1 sideBySide.2 := by
  have h0 : Reachable (start (Pairwise.empty 2) 2 .plain 0 : World Pairwise Unit) .empty :=
    .start _ 2 .plain 0 rfl (by decide)
  have h1 := h0.step (.openScope _ _ ⟨0⟩ .plain rfl)
  exact h1.step (.openScope _ _ ⟨1⟩ .plain rfl)

/-- A task of both scopes, spawned at place 0. -/
def ofBoth : Task Unit := ⟨[0, 1], ⟨0⟩, ()⟩

/-- Sent to place 1, the task leaves the scope there as it was. -/
theorem sideBySide_sent : ∃ w₁ w₃ accepted, sideBySide.1.spawnAt ofBoth ⟨0⟩ ⟨1⟩ = (.ok (), w₁) ∧
    w₁.deliver ⟨some ⟨0⟩, ⟨1⟩⟩ = some w₃ ∧ w₃.jobs = [⟨⟨1⟩, accepted, ()⟩] ∧
    ∀ k, gain sideBySide.1 w₁ 1 k + gain w₁ w₃ 1 k +
      gain w₃ (w₃.complete ⟨⟨1⟩, accepted, ()⟩ none) 1 k = 0 := by
  obtain ⟨w₁, hs, hw₁⟩ : ∃ w₁, sideBySide.1.spawnAt ofBoth ⟨0⟩ ⟨1⟩ = (.ok (), w₁) ∧
    w₁ = (sideBySide.1.spawnAt ofBoth ⟨0⟩ ⟨1⟩).2 := ⟨_, rfl, rfl⟩
  have hb : sideBySide.1.Built ⟨1⟩ := rfl
  obtain ⟨tokens, hok, hall⟩ :=
    (completed_balance reachable_sideBySide (by decide) hb hs).1 (by decide)
  obtain rfl : tokens = [⟨⟨⟨0⟩, 0⟩, .plain⟩, ⟨⟨⟨1⟩, 0⟩, .plain⟩] := by
    cases hok
    rfl
  obtain ⟨net, ht⟩ : ∃ net, Network.take w₁.net ⟨some ⟨0⟩, ⟨1⟩⟩ =
      some (⟨⟨0⟩, ⟨1⟩, .handOff [⟨⟨⟨0⟩, 0⟩, .plain⟩, ⟨⟨⟨1⟩, 0⟩, .plain⟩] ()⟩, net) := by
    rw [hw₁]
    exact ⟨_, rfl⟩
  obtain ⟨w₃, accepted, hd, hjobs, hend⟩ := hall w₁ _ net .refl ht
  have hanswers : w₃.Answers 1 := by
    obtain rfl : w₃ = (w₁.deliver ⟨some ⟨0⟩, ⟨1⟩⟩).getD w₁ := by rw [hd]; rfl
    rw [hw₁]
    decide
  refine ⟨w₁, w₃, accepted, hs, hd, ?_, fun k => hend w₃ .refl 1 k ⟨_, rfl, rfl⟩ hanswers⟩
  rw [hjobs, hw₁]
  rfl

/-- Run at place 0 by the shortcut, it charges the other scope there, and takes off at place 1. When
both bodies have ended, nothing is left to happen, and that scope is not released. -/
theorem sideBySide_stuck :
    let w := sideBySide.1
    let w₁ := (w.spawnAt ofBoth ⟨0⟩ ⟨0⟩).2
    let w₂ := w₁.complete ⟨⟨0⟩, [0, 1], ()⟩ none
    let w₃ := (w₂.tell 0).tell 1
    (w.spawnAt ofBoth ⟨0⟩ ⟨0⟩).1 = .ok () ∧
      gain w w₁ 1 0 + gain w₁ w₂ 1 0 = 1 ∧ gain w w₁ 1 1 + gain w₁ w₂ 1 1 = -1 ∧
      w₃.net.packets = [] ∧ w₃.isReleasable 0 = true ∧ w₃.isReleasable 1 = false :=
  ⟨rfl, by decide, by decide, rfl, rfl, rfl⟩

/-! ### Tasks that are dropped -/

/-- The place has an instance of the scope of an instance, or can make one. -/
def FindsScope (w : World Pairwise β) (p : PlaceId) (s : Serial) : Prop :=
  ∀ id ∈ w.idOf? s, w.Finds p id

instance (w : World Pairwise β) (p : PlaceId) (s : Serial) : Decidable (w.FindsScope p s) := by
  unfold FindsScope
  infer_instance

/-- The tokens of an instance among others, and of those before it and after it. -/
theorem Tokened.parts (h : Tokened w (front ++ s :: back) tokens) : ∃ before tok after,
    tokens = before ++ tok :: after ∧ Tokened w front before ∧ w.idOf? s = some tok.id := by
  induction front generalizing tokens with
  | nil =>
    cases h with
    | @cons _ tok _ after hs _ => exact ⟨[], tok, after, rfl, .nil, hs⟩
  | cons t front ih =>
    cases h with
    | @cons _ tok' _ tokens' ht h =>
      obtain ⟨before, tok, after, rfl, hb, hs⟩ := ih h
      exact ⟨tok' :: before, tok, after, rfl, .cons ht hb, hs⟩

/-- A task for another place that does not find one of its scopes: the task is never run, and what
its spawn charged is taken off the scopes before that one. That one stays charged, and so do those
after it. -/
theorem dropped_balance (h : Operated w) (hne : target ≠ p) (hb : w.Built target)
    (hfs : task.finishes = front ++ s :: back)
    (hs : w.spawnAt task p target = (.ok (), w₁)) : ∃ tokens,
      (w.prepareAll task.finishes).1 = .ok tokens ∧ ∀ w₂ net, Operations w₁ w₂ →
        Network.take w₂.net ⟨some p, target⟩ =
          some (⟨p, target, .handOff tokens task.body⟩, net) →
        (∀ t ∈ front, w₂.FindsScope target t) → ¬ w₂.FindsScope target s →
        ∃ w₃, w₂.deliver ⟨some p, target⟩ = some w₃ ∧ w₃.jobs = w₂.jobs ∧
          ∀ r k, w.IsRoot r → w₂.Answers r →
            gain w w₁ r k + gain w₂ w₃ r k = w.unitsAt r k (units (s :: back) target) := by
  have ho := h.orderly
  obtain ⟨tokens, hok, htok, hm₁, hakin, hspawn⟩ := spawnAt_away ho hne hs
  have ho₁ := hm₁.orderly ho
  rw [hfs] at htok
  obtain ⟨before, tok, after, rfl, hbefore, hsid⟩ := htok.parts
  refine ⟨before ++ tok :: after, hok, fun w₂ net hops ht hf hbad => ?_⟩
  have hm₂ := hops.moved ho₁
  have hl₂ := hm₂.lasts
  have ho₂ := hm₂.orderly ho₁
  have hbefore₂ := hbefore.lasts hl₂
  have hfound : ∀ tok ∈ before, w₂.Finds target tok.id := fun x hx => by
    obtain ⟨t, ht, hid⟩ := hbefore₂.exists_of_mem hx
    exact hf t ht x.id hid
  have hmissing : ¬ w₂.Finds target tok.id := fun hfind => hbad fun id hid => by
    obtain rfl : tok.id = id := Option.some.inj ((hl₂.idOf? hsid).symm.trans hid)
    exact hfind
  obtain ⟨w₃, hd, hjobs, hdrop⟩ := dropped ho₂ ((hm₁.trans hm₂).lasts.built hb) ht hfound hmissing
    hbefore₂
  refine ⟨w₃, hd, hjobs, fun r k hr hn => ?_⟩
  have hr₁ := hm₁.lasts.isRoot hr
  have hfront : w₂.unitsAt r k (units front target) = w.unitsAt r k (units front target) := by
    rw [hl₂.unitsAt ho₂ hr₁ hbefore.isSome]
    exact unitsAt_congr fun _ _ => by rw [hakin]
  rw [gain, gain, hspawn r k hr, hdrop r k (hl₂.isRoot hr₁) hn, hfront, hfs, units_append,
    unitsAt_add]
  push_cast
  omega

/-- Two scopes at place 0; place 1 has bound the identity of the first to something else. -/
def estranged : World Pairwise Unit :=
  let w₀ : World Pairwise Unit := start (Pairwise.empty 2) 2 .plain 0
  let w₁ := ((w₀.openScope ⟨0⟩ .plain).2.openScope ⟨0⟩ .plain).2
  ((w₁.prepareTransfer 0).2.bindForeign ⟨1⟩ ⟨⟨0⟩, 0⟩).2

theorem operated_estranged : Operated estranged := by
  have h0 : Operated (start (Pairwise.empty 2) 2 .plain 0 : World Pairwise Unit) :=
    .start _ 2 .plain 0 rfl (by decide)
  have h1 := h0.operates (.openScope ⟨0⟩ .plain rfl)
  have h2 := h1.operates (.openScope ⟨0⟩ .plain rfl)
  exact (h2.operates (.prepareTransfer 0)).operates (.bindForeign ⟨1⟩ ⟨⟨0⟩, 0⟩)

/-- A task of the second scope twice, and between of the first. -/
def ofEstranged : Task Unit := ⟨[1, 0, 1], ⟨0⟩, ()⟩

/-- One of the two units of the second scope is taken off, and the other is not. -/
theorem estranged_dropped : ∃ w₁ w₂, estranged.spawnAt ofEstranged ⟨0⟩ ⟨1⟩ = (.ok (), w₁) ∧
    w₁.deliver ⟨some ⟨0⟩, ⟨1⟩⟩ = some w₂ ∧ w₂.jobs = [] ∧
    gain estranged w₁ 1 1 + gain w₁ w₂ 1 1 = 1 := by
  obtain ⟨w₁, hs, hw₁⟩ : ∃ w₁, estranged.spawnAt ofEstranged ⟨0⟩ ⟨1⟩ = (.ok (), w₁) ∧
    w₁ = (estranged.spawnAt ofEstranged ⟨0⟩ ⟨1⟩).2 := ⟨_, rfl, rfl⟩
  have hb : estranged.Built ⟨1⟩ := rfl
  have hfs : ofEstranged.finishes = [1] ++ 0 :: [1] := rfl
  obtain ⟨tokens, hok, hall⟩ := dropped_balance operated_estranged (by decide) hb hfs hs
  obtain rfl : tokens =
      [⟨⟨⟨0⟩, 1⟩, .plain⟩, ⟨⟨⟨0⟩, 0⟩, .plain⟩, ⟨⟨⟨0⟩, 1⟩, .plain⟩] := by
    cases hok
    rfl
  obtain ⟨net, ht⟩ : ∃ net, Network.take w₁.net ⟨some ⟨0⟩, ⟨1⟩⟩ = some (⟨⟨0⟩, ⟨1⟩,
      .handOff [⟨⟨⟨0⟩, 1⟩, .plain⟩, ⟨⟨⟨0⟩, 0⟩, .plain⟩, ⟨⟨⟨0⟩, 1⟩, .plain⟩] ()⟩, net) := by
    rw [hw₁]
    exact ⟨_, rfl⟩
  obtain ⟨w₂, hd, hjobs, hend⟩ := hall w₁ net .refl ht (by rw [hw₁]; decide) (by rw [hw₁]; decide)
  refine ⟨w₁, w₂, hs, hd, ?_, ?_⟩
  · rw [hjobs, hw₁]
    rfl
  · rw [hend 1 1 ⟨_, rfl, rfl⟩ (by rw [hw₁]; decide)]
    decide

/-- A task of the first scope and then the second is not taken off the second. When its body has
ended, nothing is left to happen, and the second scope is not released. -/
theorem estranged_stuck :
    let w₁ := (estranged.spawnAt ⟨[0, 1], ⟨0⟩, ()⟩ ⟨0⟩ ⟨1⟩).2
    let w₂ := (w₁.deliver ⟨some ⟨0⟩, ⟨1⟩⟩).getD w₁
    let w₃ := w₂.tell 1
    (estranged.spawnAt ⟨[0, 1], ⟨0⟩, ()⟩ ⟨0⟩ ⟨1⟩).1 = .ok () ∧ w₁.FindsScope ⟨1⟩ 1 ∧
      gain estranged w₁ 1 1 + gain w₁ w₂ 1 1 = 1 ∧
      w₃.net.packets = [] ∧ w₃.jobs = [] ∧ w₃.isReleasable 1 = false :=
  ⟨rfl, by decide, by decide, rfl, rfl, rfl⟩

end World

end Quiescence
