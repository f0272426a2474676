/-
# What the operations leave alone

Most operations change counters and registries, and make instances. They move no
instance, take no identity from it, and touch none of the failures it keeps
(`Grows`).
-/
import Quiescence.Proofs.Ledger.Handoffs

namespace Quiescence

namespace World

section Growth

variable {ν : Type → Type} {β : Type} {w w' w'' : World ν β} {s t : Serial} {i j : Instance}
  {p target : PlaceId} {fs : List Serial}

/-- The instance is at home: it is the root of its scope, or the whole of it. -/
def IsRoot (w : World ν β) (s : Serial) : Prop :=
  ∃ i, w.instance? s = some i ∧ i.remoteId? = none

/-- The instances are where they were, with the failures they kept and the identities they had. One
without an identity may have got one that is homed at its place. -/
structure Grows (w w' : World ν β) : Prop where
  old : ∀ s i, w.instance? s = some i → ∃ j, w'.instance? s = some j ∧ j.place = i.place ∧
    j.exceptions = i.exceptions ∧
      (j.id = i.id ∨ i.id = none ∧ ∃ id, j.id = some id ∧ id.home = i.place)
  new : ∀ s j, w.instance? s = none → w'.instance? s = some j → j.exceptions = []

namespace Grows

theorem of_instances (h : w'.instance? = w.instance?) : Grows w w' := by
  refine ⟨fun s i hi => ⟨i, by rw [h, hi], rfl, rfl, .inl rfl⟩, fun s j hi hj => ?_⟩
  rw [h, hi] at hj
  cases hj

theorem refl (w : World ν β) : Grows w w := of_instances rfl

theorem trans (h : Grows w w') (h' : Grows w' w'') : Grows w w'' := by
  refine ⟨fun s i hi => ?_, fun s k hi hk => ?_⟩
  · obtain ⟨j, hj, hp, he, hid⟩ := h.old s i hi
    obtain ⟨k, hk, hp', he', hid'⟩ := h'.old s j hj
    refine ⟨k, hk, hp'.trans hp, he'.trans he, ?_⟩
    rcases hid with hid | ⟨hn, id, hjid, hhome⟩
    · rw [hid, hp] at hid'
      exact hid'
    · rcases hid' with hid' | ⟨hn', -⟩
      · exact .inr ⟨hn, id, hid'.trans hjid, hhome⟩
      · rw [hjid] at hn'
        cases hn'
  · cases hj : w'.instance? s with
    | none => exact h'.new s k hj hk
    | some j =>
      obtain ⟨k', hk', -, he', -⟩ := h'.old s j hj
      obtain rfl : k = k' := Option.some.inj (hk.symm.trans hk')
      exact he'.trans (h.new s j hi hj)

/-- One instance changes, and keeps its place, its identity and its failures. -/
theorem of_set (hi : w.instance? s = some i)
    (hinst : ∀ t, w'.instance? t = if t = s then some j else w.instance? t)
    (hp : j.place = i.place) (hid : j.id = i.id) (he : j.exceptions = i.exceptions) :
    Grows w w' := by
  refine ⟨fun t x hx => ?_, fun t x hx hx' => ?_⟩
  · by_cases hts : t = s
    · subst hts
      obtain rfl : i = x := Option.some.inj (hi.symm.trans hx)
      exact ⟨j, by rw [hinst, if_pos rfl], hp, he, .inl hid⟩
    · exact ⟨x, by rw [hinst, if_neg hts, hx], rfl, rfl, .inl rfl⟩
  · rw [hinst] at hx'
    split_ifs at hx' with hts
    · rw [hts, hi] at hx
      cases hx
    · rw [hx] at hx'
      cases hx'

theorem of_add (hinst : ∀ t, w'.instance? t = if t = w.instances.length then some j else w.instance? t)
    (he : j.exceptions = []) : Grows w w' := by
  refine ⟨fun t x hx => ⟨x, ?_, rfl, rfl, .inl rfl⟩, fun t x hx hx' => ?_⟩
  · rw [hinst, if_neg (Nat.ne_of_lt (serial_lt hx)), hx]
  · rw [hinst] at hx'
    split_ifs at hx'
    · cases hx'
      exact he
    · rw [hx] at hx'
      cases hx'

theorem placeOf? (h : Grows w w') (hp : w.placeOf? s = some p) : w'.placeOf? s = some p := by
  obtain ⟨i, hi, rfl⟩ := Option.map_eq_some_iff.mp hp
  obtain ⟨j, hj, hjp, -⟩ := h.old s i hi
  rw [placeOf?_eq hj, hjp]

theorem idOf? {id : GlobalId} (h : Grows w w') (hid : w.idOf? s = some id) : w'.idOf? s = some id := by
  obtain ⟨i, hi, hiid⟩ := Option.bind_eq_some_iff.mp hid
  obtain ⟨j, hj, -, -, hjid⟩ := h.old s i hi
  rcases hjid with hjid | ⟨hn, -⟩
  · rw [idOf?_eq hj, hjid, hiid]
  · rw [hiid] at hn
    cases hn

/-- An identity that is new is homed where its instance is. -/
theorem home {id : GlobalId} (h : Grows w w') (hs : (w.instance? s).isSome)
    (hid : w.idOf? s ≠ some id) (hid' : w'.idOf? s = some id) : w'.placeOf? s = some id.home := by
  obtain ⟨i, hi⟩ := Option.isSome_iff_exists.mp hs
  obtain ⟨j, hj, hp, -, hjid⟩ := h.old s i hi
  rw [idOf?_eq hj] at hid'
  rw [idOf?_eq hi] at hid
  rcases hjid with hjid | ⟨-, id', hjid, hhome⟩
  · exact absurd (hjid.symm.trans hid') hid
  · obtain rfl : id' = id := Option.some.inj (hjid.symm.trans hid')
    rw [placeOf?_eq hj, hp, hhome]

/-- An instance at home stays at home: the identity it may get is homed there. -/
theorem isRoot (h : Grows w w') (hs : w.IsRoot s) : w'.IsRoot s := by
  obtain ⟨i, hi, hr⟩ := hs
  obtain ⟨j, hj, hp, -, hid⟩ := h.old s i hi
  refine ⟨j, hj, Instance.remoteId?_eq_none.mpr fun id hjid => ?_⟩
  rcases hid with hid | ⟨-, id', hjid', hhome⟩
  · rw [hp]
    exact Instance.remoteId?_eq_none.mp hr id (hid.symm.trans hjid)
  · rw [hjid] at hjid'
    cases hjid'
    rw [hhome, hp]

end Grows

theorem grows_submit (w : World ν β) (s : Serial) : Grows w (w.submit s).2 := by
  cases hi : w.instance? s with
  | none =>
    rw [show w.submit s = (true, w) by simp [World.submit, hi]]
    exact .refl w
  | some i =>
    cases hr : i.remoteId? with
    | none =>
      rw [submit_home hi hr]
      exact .refl w
    | some id =>
      cases hb : i.bound with
      | true =>
        rw [submit_bound hi hr hb]
        exact .of_set hi (instance?_setInstance hi _) rfl rfl rfl
      | false =>
        cases hf : w.bound? i.place id with
        | none =>
          rw [submit_rebinds hi hr hb hf]
          exact .of_set hi (instance?_setInstance hi _) rfl rfl rfl
        | some b =>
          rw [submit_refuses hi hr hb hf]
          exact .refl w

theorem grows_submitAll (w : World ν β) (fs : List Serial) : Grows w (w.submitAll fs) :=
  List.foldlRecOn fs _ (.refl w) fun _ h s _ => h.trans (grows_submit _ s)

variable [Network ν]

theorem grows_openScope (w : World ν β) (p : PlaceId) (kind : ScopeKind) :
    Grows w (w.openScope p kind).2 := .of_add (instance?_addInstance w _) rfl

theorem grows_spawn (w : World ν β) (s : Serial) (target : PlaceId) : Grows w (w.spawn s target) := by
  cases hi : w.instance? s with
  | none =>
    rw [show w.spawn s target = w by simp [World.spawn, hi]]
    exact .refl w
  | some i =>
    cases hr : i.remoteId? with
    | none =>
      rw [spawn_home hi hr]
      exact .of_set hi (instance?_setInstance hi _) rfl rfl rfl
    | some id =>
      rw [spawn_away hi hr]
      exact .of_set hi (instance?_setInstance hi _) rfl rfl rfl

theorem grows_unspawn (w : World ν β) (s : Serial) (target : PlaceId) :
    Grows w (w.unspawn s target) := by
  cases hi : w.instance? s with
  | none =>
    rw [show w.unspawn s target = w by simp [World.unspawn, hi]]
    exact .refl w
  | some i =>
    cases hr : i.remoteId? with
    | none =>
      rw [unspawn_home hi hr]
      exact .of_set hi (instance?_setInstance hi _) rfl rfl rfl
    | some id =>
      rw [unspawn_away hi hr]
      exact .of_set hi (instance?_setInstance hi _) rfl rfl rfl

theorem grows_tell (w : World ν β) (s : Serial) : Grows w (w.tell s) := by
  cases hi : w.instance? s with
  | none =>
    rw [show w.tell s = w by simp [World.tell, hi]]
    exact .refl w
  | some i =>
    cases hr : i.remoteId? with
    | none =>
      rw [tell_home hi hr]
      exact .of_set hi (instance?_setInstance hi _) rfl rfl rfl
    | some id =>
      cases hd : i.counters.tellAway i.place w.known with
      | mk deltas c =>
        cases deltas with
        | none =>
          rw [tell_away_quiet hi hr hd]
          exact .of_set hi (instance?_setInstance hi _) rfl rfl rfl
        | some deltas =>
          rw [tell_away_report hi hr hd, report_eq]
          exact .of_set hi (instance?_setInstance hi _) rfl rfl rfl

theorem grows_update (w : World ν β) (s : Serial) (deltas : List Int) :
    Grows w (w.update s deltas) := by
  cases hi : w.instance? s with
  | none =>
    rw [show w.update s deltas = w by simp [World.update, hi]]
    exact .refl w
  | some i =>
    rw [update_eq hi]
    exact .of_set hi (instance?_setInstance hi _) rfl rfl rfl

theorem grows_resolve (w : World ν β) (tok : Token) (p : PlaceId) : Grows w (w.resolve tok p).2 := by
  cases hb : w.bound? p tok.id with
  | some b =>
    cases b with
    | scope s =>
      rw [resolve_bound hb]
      exact .refl w
    | foreign =>
      rw [resolve_foreign hb]
      exact .refl w
  | none =>
    by_cases hp : tok.id.home = p
    · rw [resolve_missing hb hp]
      exact .refl w
    · rw [resolve_fresh hb hp]
      exact .of_add (instance?_addInstance w _) rfl

theorem grows_accept (w : World ν β) (tok : Token) (p : PlaceId) : Grows w (w.accept tok p).2 := by
  have h := grows_resolve w tok p
  rcases hr : w.resolve tok p with ⟨_ | s, w₁⟩ <;> rw [hr] at h <;> simp only [World.accept, hr]
  · exact h
  · exact h.trans (grows_submit w₁ s)

theorem grows_spawnAll (w : World ν β) (fs : List Serial) (target : PlaceId) :
    Grows w (w.spawnAll fs target) :=
  List.foldlRecOn fs _ (.refl w) fun _ h s _ => h.trans (grows_spawn _ s target)

theorem grows_unspawnAll (w : World ν β) (fs : List Serial) (target : PlaceId) :
    Grows w (w.unspawnAll fs target) :=
  List.foldlRecOn fs _ (.refl w) fun _ h s _ => h.trans (grows_unspawn _ s target)

theorem grows_tellAll (w : World ν β) (fs : List Serial) : Grows w (w.tellAll fs) :=
  List.foldlRecOn fs _ (.refl w) fun _ h s _ => h.trans (grows_tell _ s)

theorem grows_acceptAll (w : World ν β) (p : PlaceId) (tokens : List Token) :
    Grows w (w.acceptAll p tokens).2 := by
  induction tokens generalizing w with
  | nil => exact .refl w
  | cons tok tokens ih =>
    have h := grows_accept w tok p
    simp only [World.acceptAll]
    rcases hr : w.accept tok p with ⟨_ | s, w₁⟩ <;> rw [hr] at h
    · exact h
    · exact h.trans (ih w₁)

theorem grows_receiveReport (w : World ν β) (p : PlaceId) (id : GlobalId) (deltas : List Int) :
    Grows w (w.receiveReport p id deltas) := by
  unfold receiveReport
  cases w.lookup p id with
  | error e => exact .refl w
  | ok s => exact grows_update w s deltas

theorem grows_spawnHere (w : World ν β) (task : Task β) (p : PlaceId) : Grows w (w.spawnHere task p) :=
  ((grows_spawnAll w _ p).trans (grows_submitAll _ _)).trans (.of_instances rfl)

end Growth

section Still

variable {ν : Type → Type} {β : Type} {w w' w'' : World ν β}

/-! ### What is sent and what is handed to workers -/

/-- Nothing is sent, no task is handed to a worker, and no place is made. -/
structure Still (w w' : World ν β) : Prop where
  net : w'.net = w.net
  jobs : w'.jobs = w.jobs
  sites : w'.sites.length = w.sites.length

namespace Still

theorem refl (w : World ν β) : Still w w := ⟨rfl, rfl, rfl⟩

theorem trans (h : Still w w') (h' : Still w' w'') : Still w w'' :=
  ⟨h'.net.trans h.net, h'.jobs.trans h.jobs, h'.sites.trans h.sites⟩

end Still

theorem length_modifySite (w : World ν β) (p : PlaceId) (f : Site → Site) :
    (w.modifySite p f).sites.length = w.sites.length := by simp [modifySite]

theorem still_modifySite (w : World ν β) (p : PlaceId) (f : Site → Site) :
    Still w (w.modifySite p f) := ⟨rfl, rfl, length_modifySite w p f⟩

theorem still_setInstance (w : World ν β) (s : Serial) (i : Instance) :
    Still w (w.setInstance s i) := ⟨rfl, rfl, rfl⟩

theorem still_modifyIdentities (w : World ν β) (p : PlaceId)
    (f : Registry Binding → Registry Binding) : Still w (w.modifyIdentities p f) :=
  still_modifySite w p _

theorem still_submit (w : World ν β) (s : Serial) : Still w (w.submit s).2 := by
  unfold World.submit
  split
  · exact .refl w
  · split
    · exact .refl w
    · dsimp only
      split_ifs
      · exact still_setInstance w s _
      · split
        · exact .refl w
        · exact ⟨rfl, rfl, length_modifySite _ _ _⟩

theorem still_submitAll (w : World ν β) (fs : List Serial) : Still w (w.submitAll fs) :=
  List.foldlRecOn fs _ (.refl w) fun _ h s _ => h.trans (still_submit _ s)

theorem still_retain (w : World ν β) (s : Serial) (i : Instance) (f : Failure) :
    Still w (w.retain s i f) := by
  unfold World.retain
  split_ifs
  · exact still_modifySite w _ _
  · exact .refl w

theorem still_exit (w : World ν β) (s : Serial) : Still w (w.exit s) := by
  unfold World.exit
  split
  · exact .refl w
  · split
    · exact .refl w
    · exact still_modifyIdentities w _ _

theorem still_takeExceptions (w : World ν β) (s : Serial) : Still w (w.takeExceptions s).2 := by
  unfold World.takeExceptions
  split
  · exact .refl w
  · exact still_setInstance w s _

theorem still_leave (w : World ν β) (s : Serial) : Still w (w.leave s).2 :=
  (still_exit w s).trans (still_takeExceptions _ s)

variable [Network ν]

theorem still_spawn (w : World ν β) (s : Serial) (target : PlaceId) : Still w (w.spawn s target) := by
  unfold World.spawn
  split
  · exact .refl w
  · split <;> exact still_setInstance w s _

theorem still_unspawn (w : World ν β) (s : Serial) (target : PlaceId) :
    Still w (w.unspawn s target) := by
  unfold World.unspawn
  split
  · exact .refl w
  · split <;> exact still_setInstance w s _

theorem still_update (w : World ν β) (s : Serial) (deltas : List Int) :
    Still w (w.update s deltas) := by
  unfold World.update
  split
  · exact .refl w
  · exact still_setInstance w s _

theorem still_prepareTransfer (w : World ν β) (s : Serial) : Still w (w.prepareTransfer s).2 := by
  unfold World.prepareTransfer
  split
  · exact .refl w
  · split
    · exact .refl w
    · split
      · exact .refl w
      · split
        · exact .refl w
        · exact ⟨rfl, rfl, length_modifySite _ _ _⟩

theorem still_resolve (w : World ν β) (tok : Token) (p : PlaceId) : Still w (w.resolve tok p).2 := by
  unfold World.resolve
  split
  · exact .refl w
  · split_ifs
    · exact .refl w
    · exact ⟨rfl, rfl, length_modifySite _ _ _⟩
  · exact .refl w

theorem still_accept (w : World ν β) (tok : Token) (p : PlaceId) : Still w (w.accept tok p).2 := by
  have h := still_resolve w tok p
  rcases hr : w.resolve tok p with ⟨_ | s, w₁⟩ <;> rw [hr] at h <;> simp only [World.accept, hr]
  · exact h
  · exact h.trans (still_submit w₁ s)

theorem still_spawnAll (w : World ν β) (fs : List Serial) (target : PlaceId) :
    Still w (w.spawnAll fs target) :=
  List.foldlRecOn fs _ (.refl w) fun _ h s _ => h.trans (still_spawn _ s target)

theorem still_unspawnAll (w : World ν β) (fs : List Serial) (target : PlaceId) :
    Still w (w.unspawnAll fs target) :=
  List.foldlRecOn fs _ (.refl w) fun _ h s _ => h.trans (still_unspawn _ s target)

theorem still_prepareAll (w : World ν β) (fs : List Serial) : Still w (w.prepareAll fs).2 := by
  induction fs generalizing w with
  | nil => exact .refl w
  | cons s fs ih =>
    have h := still_prepareTransfer w s
    simp only [World.prepareAll]
    rcases hr : w.prepareTransfer s with ⟨_ | tok, w₁⟩ <;> rw [hr] at h
    · exact h
    · have h' := h.trans (ih w₁)
      simp only
      rcases hr' : w₁.prepareAll fs with ⟨_ | ts, w₂⟩ <;> rw [hr'] at h' <;> exact h'

theorem still_acceptAll (w : World ν β) (p : PlaceId) (tokens : List Token) :
    Still w (w.acceptAll p tokens).2 := by
  induction tokens generalizing w with
  | nil => exact .refl w
  | cons tok tokens ih =>
    have h := still_accept w tok p
    simp only [World.acceptAll]
    rcases hr : w.accept tok p with ⟨_ | s, w₁⟩ <;> rw [hr] at h
    · exact h
    · exact h.trans (ih w₁)

theorem still_receiveReport (w : World ν β) (p : PlaceId) (id : GlobalId) (deltas : List Int) :
    Still w (w.receiveReport p id deltas) := by
  unfold receiveReport
  split
  · exact .refl w
  · exact still_update w _ deltas

end Still

section Ground

variable {β : Type} {w w' w'' : World Pairwise β}

/-- The places that are known and those that are dead are the same. -/
structure Ground (w w' : World Pairwise β) : Prop where
  known : w'.net.known = w.net.known
  dead : w'.net.dead = w.net.dead

namespace Ground

theorem refl (w : World Pairwise β) : Ground w w := ⟨rfl, rfl⟩

theorem trans (h : Ground w w') (h' : Ground w' w'') : Ground w w'' :=
  ⟨h'.known.trans h.known, h'.dead.trans h.dead⟩

end Ground

theorem Still.ground (h : Still w w') : Ground w w' := ⟨by rw [h.net], by rw [h.net]⟩

/-- Sending changes nothing but the packets on their way. -/
theorem ground_send {sender dest : PlaceId} {m : Message β} (h : w.send sender dest m = .ok w') :
    Ground w w' ∧ w'.jobs = w.jobs := by
  unfold World.send at h
  by_cases hn : w.net.Refuses dest
  · obtain ⟨e, he⟩ : ∃ e, Network.send w.net ⟨sender, dest, m⟩ = .error e := Pairwise.send_refused hn
    rw [he] at h
    cases h
  · have he : Network.send w.net ⟨sender, dest, m⟩ = .ok _ := Pairwise.send_accepted hn
    rw [he] at h
    cases h
    exact ⟨⟨rfl, rfl⟩, rfl⟩

theorem ground_addSuppressed (w : World Pairwise β) (s : Serial) (f : Failure) :
    Ground w (w.addSuppressed s f) ∧ (w.addSuppressed s f).jobs = w.jobs := by
  unfold World.addSuppressed
  split
  · exact ⟨.refl w, rfl⟩
  · rename_i i _
    have h := still_retain w s i f
    dsimp only
    split
    · exact ⟨(h.trans (still_setInstance _ s _)).ground, h.jobs⟩
    · split
      · rename_i hs
        obtain ⟨h1, h2⟩ := ground_send hs
        exact ⟨(h.trans (still_setInstance _ s _)).ground.trans h1, h2.trans h.jobs⟩
      · exact ⟨(h.trans (still_setInstance _ s _)).ground, h.jobs⟩

theorem ground_tell (w : World Pairwise β) (s : Serial) :
    Ground w (w.tell s) ∧ (w.tell s).jobs = w.jobs := by
  unfold World.tell World.report
  split
  · exact ⟨.refl w, rfl⟩
  · split
    · split
      · exact ⟨(still_setInstance w s _).ground, rfl⟩
      · dsimp only [World.unbind]
        split
        · rename_i hs
          obtain ⟨h1, h2⟩ := ground_send hs
          exact ⟨((still_setInstance w s _).ground.trans h1).trans (still_modifySite _ _ _).ground, h2⟩
        · exact ⟨(Still.trans (still_setInstance w s _) (still_modifySite _ _ _)).ground, rfl⟩
    · exact ⟨(still_setInstance w s _).ground, rfl⟩

theorem jobs_tellAll (w : World Pairwise β) (fs : List Serial) : (w.tellAll fs).jobs = w.jobs :=
  List.foldlRecOn (motive := fun w' : World Pairwise β => w'.jobs = w.jobs) fs _ rfl
    fun w₁ h s _ => (ground_tell w₁ s).2.trans h

theorem ground_deliverFailure (w : World Pairwise β) (p : PlaceId) (id : GlobalId)
    (payload : Wire.Bytes) : Ground w (w.deliverFailure p id payload) ∧
      (w.deliverFailure p id payload).jobs = w.jobs := by
  unfold World.deliverFailure
  split
  · exact ⟨.refl w, rfl⟩
  · rename_i r _
    have h1 := still_submit w r
    obtain ⟨h2, h3⟩ := ground_addSuppressed (w.submit r).2 r (.ofDecoded (Failure.decode payload) p)
    obtain ⟨h4, h5⟩ := ground_tell
      ((w.submit r).2.addSuppressed r (.ofDecoded (Failure.decode payload) p)) r
    exact ⟨(h1.ground.trans h2).trans h4, h5.trans (h3.trans h1.jobs)⟩

end Ground

end World

end Quiescence
