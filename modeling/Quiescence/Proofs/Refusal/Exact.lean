/-
# Exact counters in every run

Where an instance at home has slots, its count is the number of those that are
not zero. Every operation looks at the slots it changes before and after, so
this holds of all instances at home, whatever was counted (`AllExact`): also
when reports and ends came before the spawns they belong to, and when a spawn
was taken back that never was.

* `AllExact.passing`, `AllExact.follows`: one operation, and any number of them.
-/
import Quiescence.Proofs.Identities.Lineage

namespace Quiescence

namespace Counters

theorem exact_unspawnAtHome {c : Counters} (h : c.Exact) (target : PlaceId) (known : ℕ) :
    (c.unspawnAtHome target known).2.Exact := by
  cases hs : c.slots with
  | none =>
    intro slots h'
    simp [unspawnAtHome, hs] at h'
  | some slots => exact (unspawnAtHome_spec h target target known (.inl rfl)).1

end Counters

namespace World

variable {ν : Type → Type} {β : Type} {w w' : World ν β} {g g' : Lineage} {r s : Serial}
  {i j : Instance} {p target : PlaceId} {id : GlobalId} {tok : Token}

/-- The counters of every instance at home are exact. -/
def AllExact (w : World ν β) : Prop :=
  ∀ s i, w.instance? s = some i → i.remoteId? = none → i.counters.Exact

namespace AllExact

theorem congr (h : w.AllExact) (hi : w'.instances = w.instances) : w'.AllExact := by
  unfold AllExact instance?
  rw [hi]
  exact h

/-- One instance changes. -/
theorem set (h : w.AllExact)
    (hinst : ∀ t, w'.instance? t = if t = s then some j else w.instance? t)
    (hj : j.remoteId? = none → j.counters.Exact) : w'.AllExact := fun t x hx hr => by
  rw [hinst] at hx
  split_ifs at hx
  · cases hx
    exact hj hr
  · exact h t x hx hr

/-- One instance changes, and is at home if it was. -/
theorem setInstance (h : w.AllExact) (hi : w.instance? s = some i) (hr : j.remoteId? = i.remoteId?)
    (hx : i.remoteId? = none → i.counters.Exact → j.counters.Exact) : (w.setInstance s j).AllExact :=
  h.set (instance?_setInstance hi j) fun hn => hx (hr ▸ hn) (h s i hi (hr ▸ hn))

/-- Away from home anything may be counted. -/
theorem setAway (h : w.AllExact) (hi : w.instance? s = some i) (hid : i.remoteId? = some id)
    (hr : j.remoteId? = i.remoteId?) : (w.setInstance s j).AllExact :=
  h.setInstance hi hr fun hn => by rw [hid] at hn; cases hn

theorem submit (h : w.AllExact) (s : Serial) : (w.submit s).2.AllExact := by
  unfold World.submit
  split
  · exact h
  · rename_i i hi
    split
    · exact h
    · rename_i id hr
      have hset : (w.setInstance s { i with counters := i.counters.submitAway, bound := true }).AllExact :=
        h.setAway hi hr rfl
      dsimp only
      split_ifs
      · exact hset
      · split
        · exact h
        · exact hset.congr rfl

theorem exit (h : w.AllExact) (s : Serial) : (w.exit s).AllExact := by
  refine h.congr ?_
  unfold World.exit
  split
  · rfl
  · split <;> rfl

theorem takeExceptions (h : w.AllExact) (s : Serial) : (w.takeExceptions s).2.AllExact := by
  cases hi : w.instance? s with
  | none => simpa [World.takeExceptions, hi] using h
  | some i =>
    rw [takeExceptions_eq hi]
    exact h.setInstance hi rfl fun _ hx => hx

variable [Network ν]

theorem spawn (h : w.AllExact) (s : Serial) (target : PlaceId) : (w.spawn s target).AllExact := by
  cases hi : w.instance? s with
  | none => simpa [World.spawn, hi] using h
  | some i =>
    cases hr : i.remoteId? with
    | none =>
      rw [spawn_home hi hr]
      exact h.setInstance hi rfl fun _ hx => (Counters.spawnAtHome_spec hx ..).1
    | some id =>
      rw [spawn_away hi hr]
      exact h.setAway hi hr rfl

theorem unspawn (h : w.AllExact) (s : Serial) (target : PlaceId) : (w.unspawn s target).AllExact := by
  cases hi : w.instance? s with
  | none => simpa [World.unspawn, hi] using h
  | some i =>
    cases hr : i.remoteId? with
    | none =>
      rw [unspawn_home hi hr]
      exact h.setInstance hi rfl fun _ hx => Counters.exact_unspawnAtHome hx target w.known
    | some id =>
      rw [unspawn_away hi hr]
      exact h.setAway hi hr rfl

theorem tell (h : w.AllExact) (s : Serial) : (w.tell s).AllExact := by
  cases hi : w.instance? s with
  | none => simpa [World.tell, hi] using h
  | some i =>
    cases hr : i.remoteId? with
    | none =>
      rw [tell_home hi hr]
      exact h.setInstance hi rfl fun _ hx => (Counters.tellAtHome_spec hx ..).1
    | some id =>
      have hset : ∀ c b, (w.setInstance s { i with counters := c, bound := b }).AllExact := fun c b =>
        h.setAway hi hr rfl
      rcases ht : i.counters.tellAway i.place w.known with ⟨_ | deltas, c⟩
      · rw [tell_away_quiet hi hr ht]
        exact hset c i.bound
      · rw [tell_away_report hi hr ht, report_eq]
        exact (hset c false).congr rfl

theorem update (h : w.AllExact) (s : Serial) (deltas : List Int) : (w.update s deltas).AllExact := by
  cases hi : w.instance? s with
  | none => simpa [World.update, hi] using h
  | some i =>
    rw [update_eq hi]
    exact h.setInstance hi rfl fun _ hx => (Counters.update_spec hx ..).1

theorem addSuppressed (h : w.AllExact) (s : Serial) (f : Failure) : (w.addSuppressed s f).AllExact := by
  cases hi : w.instance? s with
  | none => simpa [World.addSuppressed, hi] using h
  | some i =>
    have ha := alike_retain w s i f
    have hi' : (w.retain s i f).instance? s = some i := by rw [ha.instance?, hi]
    have h' : (w.retain s i f).AllExact := h.congr ha.instances
    cases hr : i.remoteId? with
    | none =>
      rw [addSuppressed_home hi hr]
      exact h'.setInstance hi' rfl fun _ hx => hx
    | some id =>
      have hset : ∀ c e,
          ((w.retain s i f).setInstance s { i with counters := c, exceptions := e }).AllExact :=
        fun c e => h'.setAway hi' hr rfl
      cases hs : Network.send w.net ⟨i.place, id.home, .failure id f.encode⟩ with
      | ok net =>
        rw [addSuppressed_sent hi hr hs]
        exact (hset _ i.exceptions).congr rfl
      | error e =>
        rw [addSuppressed_refused hi hr hs]
        exact hset _ _

theorem openScope (h : w.AllExact) (p : PlaceId) (kind : ScopeKind) :
    (w.openScope p kind).2.AllExact :=
  h.set (instance?_addInstance w _) fun _ =>
    (Counters.spawnAtHome_spec Counters.exact_zero ..).1

/-- An instance that gets an identity stays at home. -/
theorem prepareTransfer (h : w.AllExact) (hd : Descended w g) (s : Serial) :
    (w.prepareTransfer s).2.AllExact := by
  cases hi : w.instance? s with
  | none => simpa [World.prepareTransfer, hi] using h
  | some i =>
    rcases hd.prepareTransfer_spec hi with ⟨id, -, he⟩ | ⟨n, -, -, -, he⟩ | ⟨id, w', he, ha⟩ <;> rw [he]
    · exact h
    · exact h
    · refine h.set ha.instance? fun _ => h s i hi ?_
      simp [Instance.remoteId?, ha.unnamed]

/-- An instance that is made is not at home. -/
theorem resolve (h : w.AllExact) (hd : Descended w g) (hr : (r, tok) ∈ g.issued) (hp : w.Built p) :
    (w.resolve tok p).2.AllExact := by
  rcases hd.resolve_spec hr hp with ⟨s, -, he⟩ | ⟨-, -, he⟩ | ⟨w', j, hne, hjp, hjid, -, he, hj⟩ <;> rw [he]
  · exact h
  · exact h
  · refine h.set hj.instance? fun hn => ?_
    rw [Instance.remoteId?_eq_some.mpr ⟨hjid, hjp ▸ hne⟩] at hn
    cases hn

theorem passing (h : w.AllExact) (hd : Descended w g) (hs : Passing w g w' g') : w'.AllExact := by
  cases hs with
  | openScope p kind hp => exact h.openScope p kind
  | prepareTransfer s => exact h.prepareTransfer hd s
  | resolve r tok p hr hp => exact h.resolve hd hr hp
  | accept r tok p hr hp =>
    have h' := h.resolve hd hr hp
    unfold World.accept
    rcases hres : w.resolve tok p with ⟨_ | s, w₁⟩ <;> rw [hres] at h'
    · exact h'
    · exact h'.submit s
  | submit s => exact h.submit s
  | tell s => exact h.tell s
  | exit s i hi hr => exact h.exit s
  | spawn s target => exact h.spawn s target
  | unspawn s target => exact h.unspawn s target
  | update s deltas => exact h.update s deltas
  | addSuppressed s f => exact h.addSuppressed s f
  | takeExceptions s => exact h.takeExceptions s
  | elsewhere _ hi ht => exact h.congr hi

theorem follows (h : w.AllExact) (hd : Descended w g) (hf : Follows w g w' g') : w'.AllExact := by
  induction hf with
  | refl => exact h
  | step hf hs ih => exact ih.passing (hd.follows hf) hs

end AllExact

theorem allExact_start (net : ν (Message β)) (places : ℕ) (kind : ScopeKind) (spins : ℕ) :
    (start net places kind spins).AllExact := fun s i hi _ => by cases hi

end World

end Quiescence
