/-
# What the operations on a world change

A world is looked at through its instances, the registry of each place
(`table?`) and its network; the rest does not count tasks. This module says what
each operation on one instance does to these three, so that no later proof opens
an operation.

* `Registry.get?_put`, `Registry.get?_erase`, `Registry.get?_removeIf`: what a
  registry binds after a change.
* `instance?_setInstance`, `bound?_modifyIdentities`: the lookups after a change
  of the tables.
* `spawn_home`, `spawn_away`, `tell_home`, `tell_away`, and so on: each operation
  as a change of one instance, by the role of the instance.
-/
import Mathlib.Data.List.Basic
import Mathlib.Tactic.SplitIfs
import Quiescence.World.Task

namespace Quiescence

namespace Registry

variable {α : Type}

theorem get?_erase (r : Registry α) (id id' : GlobalId) :
    (r.erase id).get? id' = if id' = id then none else r.get? id' := by
  unfold get? erase
  rw [List.find?_filter]
  split_ifs with h
  · subst h
    rw [Option.map_eq_none_iff, List.find?_eq_none]
    intro b _
    simp
  · congr 1
    congr 1
    funext b
    by_cases hb : b.1 = id'
    · simp [hb, h]
    · simp [hb]

theorem get?_put (r : Registry α) (id id' : GlobalId) (a : α) :
    (r.put id a).get? id' = if id' = id then some a else r.get? id' := by
  have h := get?_erase r id id'
  unfold get? at h ⊢
  unfold put
  rw [List.find?_append, Option.map_or, h]
  split_ifs with hid
  · simp [hid]
  · have : (id == id') = false := by simpa using Ne.symm hid
    simp [this]

theorem get?_removeIf (r : Registry α) (id id' : GlobalId) (accepts : α → Bool) :
    (r.removeIf id accepts).2.get? id' =
      if id' = id ∧ (r.get? id).any accepts then none else r.get? id' := by
  unfold removeIf
  cases h : r.get? id with
  | none => simp
  | some a =>
    cases ha : accepts a with
    | false => simp [ha]
    | true => simp [ha, get?_erase]

end Registry

namespace Instance

theorem remoteId?_eq_some {i : Instance} {id : GlobalId} :
    i.remoteId? = some id ↔ i.id = some id ∧ id.home ≠ i.place := by
  unfold remoteId?
  cases i.id with
  | none => simp
  | some id' =>
    simp only [Option.filter_some, GlobalId.isHome]
    by_cases h : id'.home = i.place
    · simp only [h, decide_true, Bool.not_true, Bool.false_eq_true, ↓reduceIte]
      constructor
      · intro h'; cases h'
      · rintro ⟨h', hne⟩
        cases h'
        exact absurd h hne
    · simp only [h, decide_false, Bool.not_false, ↓reduceIte, Option.some.injEq]
      constructor
      · rintro rfl; exact ⟨rfl, h⟩
      · exact fun h' => h'.1

theorem remoteId?_eq_none {i : Instance} :
    i.remoteId? = none ↔ ∀ id, i.id = some id → id.home = i.place := by
  constructor
  · intro h id hid
    by_contra hne
    rw [remoteId?_eq_some.mpr ⟨hid, hne⟩] at h
    cases h
  · intro h
    cases hr : i.remoteId? with
    | none => rfl
    | some id =>
      obtain ⟨hid, hne⟩ := remoteId?_eq_some.mp hr
      exact absurd (h id hid) hne

/-- A root is at the home place of its identity. -/
theorem id_of_root {i : Instance} (h : i.role = .root) : ∃ id, i.id = some id ∧ id.home = i.place := by
  unfold role at h
  split at h
  · cases h
  · rename_i id hid
    refine ⟨id, hid, ?_⟩
    split_ifs at h with hhome
    simpa [GlobalId.isHome] using hhome

theorem remoteId?_of_root {i : Instance} (h : i.role = .root) : i.remoteId? = none := by
  obtain ⟨id, hid, hhome⟩ := id_of_root h
  refine remoteId?_eq_none.mpr fun id' hid' => ?_
  rw [hid] at hid'
  cases hid'
  exact hhome

theorem remoteId?_congr {i j : Instance} (hp : j.place = i.place) (hid : j.id = i.id) :
    j.remoteId? = i.remoteId? := by
  unfold remoteId?
  rw [hp, hid]

end Instance

namespace World

variable {ν : Type → Type} {β : Type} {w w' : World ν β} {s t : Serial} {i j : Instance}

/-! ### Lookups -/

/-- The registry of a place. -/
def table? (w : World ν β) (p : PlaceId) : Option (Registry Binding) :=
  (w.site? p).map (·.identities)

theorem bound?_eq (w : World ν β) (p : PlaceId) (id : GlobalId) :
    w.bound? p id = (w.table? p).bind fun r => r.get? id := by
  unfold bound? table?
  cases w.site? p <;> rfl

theorem site?_modifySite (w : World ν β) (p q : PlaceId) (f : Site → Site) :
    (w.modifySite p f).site? q = if q = p then (w.site? p).map f else w.site? q := by
  unfold site? modifySite
  rw [List.getElem?_modify]
  by_cases h : q = p
  · subst h; simp
  · have : p.index ≠ q.index := fun hi => h (PlaceId.index_inj.mp hi).symm
    simp [h, this]

theorem table?_modifyIdentities (w : World ν β) (p q : PlaceId)
    (f : Registry Binding → Registry Binding) :
    (w.modifyIdentities p f).table? q = if q = p then (w.table? p).map f else w.table? q := by
  unfold table? modifyIdentities
  rw [site?_modifySite]
  split_ifs
  · simp [Option.map_map, Function.comp_def]
  · rfl

/-- Changes of a place that leave its registry alone leave all registries alone. -/
theorem table?_modifySite (w : World ν β) (p : PlaceId) (f : Site → Site)
    (hf : ∀ site, (f site).identities = site.identities) :
    (w.modifySite p f).table? = w.table? := by
  funext q
  unfold table?
  rw [site?_modifySite]
  split_ifs with h
  · subst h; simp [Option.map_map, Function.comp_def, hf]
  · rfl

theorem bound?_modifyIdentities (w : World ν β) (p q : PlaceId) (id : GlobalId)
    (f : Registry Binding → Registry Binding) :
    (w.modifyIdentities p f).bound? q id =
      if q = p then (w.table? p).bind fun r => (f r).get? id else w.bound? q id := by
  rw [bound?_eq, bound?_eq, table?_modifyIdentities]
  split_ifs
  · cases w.table? p <;> rfl
  · rfl

/-- The instance that a change of instance `s` leaves at `t`. -/
theorem instance?_setInstance (h : w.instance? s = some i) (j : Instance) (t : Serial) :
    (w.setInstance s j).instance? t = if t = s then some j else w.instance? t := by
  obtain ⟨hs, -⟩ := List.getElem?_eq_some_iff.mp h
  unfold instance? setInstance
  rw [List.getElem?_set]
  by_cases hts : t = s
  · subst hts; simp [hs]
  · simp [hts, Ne.symm hts]

theorem instance?_addInstance (w : World ν β) (j : Instance) (t : Serial) :
    (w.addInstance j).2.instance? t = if t = w.instances.length then some j else w.instance? t := by
  unfold instance? addInstance
  rw [List.getElem?_append]
  split_ifs with h1 h2 h2
  · exact absurd h2 (Nat.ne_of_lt h1)
  · rfl
  · simp [h2]
  · have hlt : w.instances.length < t := Nat.lt_of_le_of_ne (Nat.not_lt.mp h1) (Ne.symm h2)
    rw [List.getElem?_eq_none (Nat.sub_pos_of_lt hlt), List.getElem?_eq_none (Nat.le_of_lt hlt)]

theorem instance?_length (w : World ν β) : w.instance? w.instances.length = none := by
  simp [instance?]

theorem serial_lt (h : w.instance? s = some i) : s < w.instances.length :=
  (List.getElem?_eq_some_iff.mp h).1

@[simp] theorem table?_setInstance (w : World ν β) (s : Serial) (i : Instance) :
    (w.setInstance s i).table? = w.table? := rfl

@[simp] theorem bound?_setInstance (w : World ν β) (s : Serial) (i : Instance) :
    (w.setInstance s i).bound? = w.bound? := rfl

@[simp] theorem net_setInstance (w : World ν β) (s : Serial) (i : Instance) :
    (w.setInstance s i).net = w.net := rfl

@[simp] theorem instances_modifyIdentities (w : World ν β) (p : PlaceId)
    (f : Registry Binding → Registry Binding) :
    (w.modifyIdentities p f).instances = w.instances := rfl

@[simp] theorem net_modifyIdentities (w : World ν β) (p : PlaceId)
    (f : Registry Binding → Registry Binding) : (w.modifyIdentities p f).net = w.net := rfl

/-- Two worlds with the same network, the same instances and the same registries. -/
structure Alike (w w' : World ν β) : Prop where
  net : w'.net = w.net
  instances : w'.instances = w.instances
  tables : w'.table? = w.table?

namespace Alike

theorem refl (w : World ν β) : Alike w w := ⟨rfl, rfl, rfl⟩

theorem trans {w'' : World ν β} (h : Alike w w') (h' : Alike w' w'') : Alike w w'' :=
  ⟨h'.net.trans h.net, h'.instances.trans h.instances, h'.tables.trans h.tables⟩

theorem instance? (h : Alike w w') : w'.instance? = w.instance? := by
  funext s
  unfold World.instance?
  rw [h.instances]

theorem bound? (h : Alike w w') : w'.bound? = w.bound? := by
  funext p id
  rw [bound?_eq, bound?_eq, h.tables]

end Alike

theorem alike_modifySite (w : World ν β) (p : PlaceId) (f : Site → Site)
    (hf : ∀ site, (f site).identities = site.identities) : Alike w (w.modifySite p f) :=
  ⟨rfl, rfl, table?_modifySite w p f hf⟩

theorem alike_enqueue (w : World ν β) (job : Job β) : Alike w (w.enqueue job) :=
  ⟨rfl, rfl, table?_modifySite w _ _ fun _ => rfl⟩

/-! ### Operations on one instance -/

theorem submit_home (h : w.instance? s = some i) (hr : i.remoteId? = none) :
    w.submit s = (true, w) := by
  simp [submit, h, hr]

theorem submit_bound {id : GlobalId} (h : w.instance? s = some i) (hr : i.remoteId? = some id)
    (hb : i.bound = true) :
    w.submit s = (true, w.setInstance s { i with counters := i.counters.submitAway }) := by
  obtain ⟨p, k, id', c, e, b, n⟩ := i
  simp only at hb
  subst hb
  simp [submit, h, hr]

theorem submit_rebinds {id : GlobalId} (h : w.instance? s = some i) (hr : i.remoteId? = some id)
    (hb : i.bound = false) (hf : w.bound? i.place id = none) :
    w.submit s =
      (true, (w.setInstance s { i with counters := i.counters.submitAway, bound := true })
        |>.modifyIdentities i.place fun r => r.put id (.scope s)) := by
  simp [submit, h, hr, hb, hf]

theorem submit_refuses {id : GlobalId} {b : Binding} (h : w.instance? s = some i)
    (hr : i.remoteId? = some id) (hb : i.bound = false) (ht : w.bound? i.place id = some b) :
    w.submit s = (false, w) := by
  simp [submit, h, hr, hb, ht]

theorem alike_retain (w : World ν β) (s : Serial) (i : Instance) (f : Failure) :
    Alike w (w.retain s i f) := by
  unfold retain
  split_ifs
  · exact alike_modifySite w _ _ fun _ => rfl
  · exact Alike.refl w

theorem takeExceptions_eq (h : w.instance? s = some i) :
    w.takeExceptions s = (i.exceptions, w.setInstance s { i with exceptions := [] }) := by
  simp [takeExceptions, h]

theorem table?_unbind (w : World ν β) (p q : PlaceId) (id : GlobalId) (s : Serial) :
    (w.unbind p id s).table? q =
      if q = p then (w.table? p).map fun r => (r.removeIf id fun b => b == .scope s).2
      else w.table? q := table?_modifyIdentities ..

theorem bound?_unbind (w : World ν β) (p q : PlaceId) (id id' : GlobalId) (s : Serial) :
    (w.unbind p id s).bound? q id' =
      if q = p ∧ id' = id ∧ w.bound? p id = some (.scope s) then none else w.bound? q id' := by
  unfold unbind
  rw [bound?_modifyIdentities, bound?_eq w p id]
  by_cases hq : q = p
  · subst hq
    rw [bound?_eq]
    cases w.table? q with
    | none => simp
    | some r =>
      simp only [Option.bind_some, Registry.get?_removeIf, true_and, ↓reduceIte]
      cases r.get? id <;> simp
  · simp [hq]

variable [Network ν]

theorem spawn_home (h : w.instance? s = some i) (hr : i.remoteId? = none) (target : PlaceId) :
    w.spawn s target =
      w.setInstance s { i with counters := i.counters.spawnAtHome i.place target w.known } := by
  simp [spawn, h, hr]

theorem spawn_away {id : GlobalId} (h : w.instance? s = some i) (hr : i.remoteId? = some id)
    (target : PlaceId) :
    w.spawn s target = w.setInstance s { i with counters := i.counters.spawnAway target w.known } := by
  simp [spawn, h, hr]

theorem unspawn_home (h : w.instance? s = some i) (hr : i.remoteId? = none) (target : PlaceId) :
    w.unspawn s target = w.setInstance s
      (i.retire (i.counters.unspawnAtHome target w.known).1.released
        (i.counters.unspawnAtHome target w.known).2) := by
  simp [unspawn, h, hr]

theorem unspawn_away {id : GlobalId} (h : w.instance? s = some i) (hr : i.remoteId? = some id)
    (target : PlaceId) :
    w.unspawn s target =
      w.setInstance s { i with counters := i.counters.unspawnAway target w.known } := by
  simp [unspawn, h, hr]

theorem tell_home (h : w.instance? s = some i) (hr : i.remoteId? = none) :
    w.tell s = w.setInstance s
      (i.retire (i.counters.tellAtHome i.place w.known).1.released
        (i.counters.tellAtHome i.place w.known).2) := by
  simp [tell, h, hr]

theorem tell_away_quiet {id : GlobalId} {c : Counters} (h : w.instance? s = some i)
    (hr : i.remoteId? = some id) (hc : i.counters.tellAway i.place w.known = (none, c)) :
    w.tell s = w.setInstance s { i with counters := c } := by
  simp [tell, h, hr, hc]

theorem tell_away_report {id : GlobalId} {deltas : List Int} {c : Counters}
    (h : w.instance? s = some i) (hr : i.remoteId? = some id)
    (hc : i.counters.tellAway i.place w.known = (some deltas, c)) :
    w.tell s = w.report s { i with counters := c } id deltas := by
  simp [tell, h, hr, hc]

theorem update_eq (h : w.instance? s = some i) (deltas : List Int) :
    w.update s deltas = w.setInstance s
      (i.retire (i.counters.update i.place deltas w.known).1
        (i.counters.update i.place deltas w.known).2) := by
  simp [update, h]

theorem prepareTransfer_known {id : GlobalId} (h : w.instance? s = some i) (hid : i.id = some id) :
    w.prepareTransfer s = (.ok ⟨id, i.kind⟩, w) := by
  simp [prepareTransfer, h, hid]

/-- An instance without an identity gets the next one of its place, unless there is none left. -/
theorem prepareTransfer_fresh {r : Registry Binding} (h : w.instance? s = some i)
    (hid : i.id = none) (hr : w.table? i.place = some r) :
    w.prepareTransfer s =
      match r.allocate with
      | .error e => (.error (.allocate e), w)
      | .ok (id, r') =>
        (.ok ⟨id, i.kind⟩, (w.setInstance s { i with id := some id }).modifyIdentities i.place
          fun _ => r'.put id (.scope s)) := by
  unfold table? at hr
  cases hs : w.site? i.place with
  | none => rw [hs] at hr; cases hr
  | some site =>
    obtain rfl : site.identities = r := by rw [hs] at hr; exact Option.some.inj hr
    cases hal : site.identities.allocate <;> simp [prepareTransfer, h, hid, hs, hal]

/-- The outcome of looking an identity up, and of making an instance where nothing is bound. -/
theorem resolve_bound {tok : Token} {p : PlaceId} (h : w.bound? p tok.id = some (.scope s)) :
    w.resolve tok p = (.ok s, w) := by
  simp [resolve, lookup, h]

theorem resolve_fresh {tok : Token} {p : PlaceId} (h : w.bound? p tok.id = none)
    (hp : tok.id.home ≠ p) :
    w.resolve tok p = (.ok w.instances.length,
      ((w.addInstance
        { place := p, kind := tok.kind, id := some tok.id,
          counters := Counters.zero.materialize w.known, exceptions := [], bound := true,
          wakes := 0 }).2).modifyIdentities p fun r => r.put tok.id (.scope w.instances.length)) := by
  simp [resolve, lookup, h, GlobalId.isHome, hp, addInstance]

theorem resolve_foreign {tok : Token} {p : PlaceId} (h : w.bound? p tok.id = some .foreign) :
    w.resolve tok p = (.error (.typeMismatch tok.id), w) := by
  simp [resolve, lookup, h]

theorem resolve_missing {tok : Token} {p : PlaceId} (h : w.bound? p tok.id = none)
    (hp : tok.id.home = p) : w.resolve tok p = (.error (.unknownIdentity tok.id), w) := by
  simp [resolve, lookup, h, GlobalId.isHome, hp]

theorem addSuppressed_home (h : w.instance? s = some i) (hr : i.remoteId? = none) (f : Failure) :
    w.addSuppressed s f =
      (w.retain s i f).setInstance s { i with exceptions := i.exceptions ++ [f] } := by
  simp [addSuppressed, h, hr]

/-- The network after an attempt to send a packet. -/
def offer (net : ν (Message β)) (pk : Packet (Message β)) : ν (Message β) :=
  match Network.send net pk with
  | .ok net => net
  | .error _ => net

theorem report_eq (w : World ν β) (s : Serial) (i : Instance) (id : GlobalId) (deltas : List Int) :
    w.report s i id deltas =
      ({ w.setInstance s { i with bound := false } with
        net := offer w.net ⟨i.place, id.home, .report id deltas⟩ } : World ν β).unbind i.place id s := by
  simp only [report, send, offer, net_setInstance]
  cases Network.send w.net ⟨i.place, id.home, .report id deltas⟩ <;> rfl

theorem addSuppressed_sent {id : GlobalId} {f : Failure} {net : ν (Message β)}
    (h : w.instance? s = some i) (hr : i.remoteId? = some id)
    (hs : Network.send w.net ⟨i.place, id.home, .failure id f.encode⟩ = .ok net) :
    w.addSuppressed s f = { (w.retain s i f).setInstance s
      { i with counters := i.counters.spawnAway id.home w.known } with net } := by
  have ha := alike_retain w s i f
  simp only [addSuppressed, h, hr, send, net_setInstance, ha.net, hs, known]

theorem addSuppressed_refused {id : GlobalId} {f : Failure} {e : PlaceError}
    (h : w.instance? s = some i) (hr : i.remoteId? = some id)
    (hs : Network.send w.net ⟨i.place, id.home, .failure id f.encode⟩ = .error e) :
    w.addSuppressed s f = (w.retain s i f).setInstance s
      { i with
        counters := (i.counters.spawnAway id.home w.known).unspawnAway id.home w.known
        exceptions := i.exceptions ++ [f] } := by
  have ha := alike_retain w s i f
  simp only [addSuppressed, h, hr, send, net_setInstance, ha.net, hs, known]

/-- A failure that arrives at an instance at home is kept there, and the counters are told that it has
ended. -/
theorem deliverFailure_root {p : PlaceId} {id : GlobalId} (hi : w.instance? s = some i)
    (hr : i.remoteId? = none) (hl : w.lookup p id = .ok s) (payload : Wire.Bytes) (t : Serial) :
    (w.deliverFailure p id payload).instance? t = if t = s then
      some (Instance.retire
        { i with exceptions := i.exceptions ++ [.ofDecoded (Failure.decode payload) p] }
        (i.counters.tellAtHome i.place w.known).1.released
        (i.counters.tellAtHome i.place w.known).2)
      else w.instance? t := by
  simp only [deliverFailure, hl, submit_home hi hr]
  generalize Failure.ofDecoded (Failure.decode payload) p = f
  have ha := alike_retain w s i f
  have hset := instance?_setInstance ((congrFun ha.instance? s).trans hi)
    { i with exceptions := i.exceptions ++ [f] }
  have hknown : ((w.retain s i f).setInstance s { i with exceptions := i.exceptions ++ [f] }).known =
      w.known := congrArg Network.known ha.net
  rw [addSuppressed_home hi hr, tell_home ((hset s).trans (if_pos rfl)) hr,
    instance?_setInstance ((hset s).trans (if_pos rfl)), hset, hknown, ha.instance?]
  split_ifs <;> rfl

end World

end Quiescence
