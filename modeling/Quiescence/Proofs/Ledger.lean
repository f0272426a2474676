/-
# What has been spawned and what has ended

A `Ledger` is the history of a run as far as tasks go: those spawned, those that
ended, those accepted and not ended, and the messages that came to nothing. No
program has it; it is what the counters of the instances stand for.

The instances of one scope are those with its identity (`Akin`), so the ledger
of a scope is read off the ledger of the run: at each place so many tasks were
`spawned` for it, so many `told` there, so many are held there or on their way.

`account` is the account of a scope (`Quiescence.Account`): its tallies at the
root, the reports on their way, and what its other instances have not reported.
`Consistent` says that all accounts are sound and that no task is unaccounted
for. It is kept by each operation (`Quiescence.Proofs.Ledger.Steps`).
-/
import Mathlib.Data.Multiset.Filter
import Quiescence.Proofs.Account
import Quiescence.Proofs.Lanes
import Quiescence.Proofs.World.Binding

namespace Quiescence

/-- A failure reported to an instance, by a body at its place or by a message from another. -/
structure Entry where
  scope : Serial
  /-- Where the body ran. -/
  place : PlaceId
  failure : Failure

/-- The history of a run. A task counts for the instance it was registered with. -/
structure Ledger (β : Type) where
  /-- Tasks accepted and not ended, by instance; the body of a scope is one. -/
  held : Multiset Serial
  /-- Tasks spawned and not taken back, by instance and destination. -/
  spawned : Multiset (Serial × PlaceId)
  /-- Tasks that ended, by the instance that was told. -/
  told : Multiset Serial
  /-- Reports and failures that could not be sent. -/
  lost : List (Packet (Message β))
  /-- Messages delivered to places that were never built. -/
  astray : List (Packet (Message β))
  /-- Scopes that were left. -/
  left : List Serial
  /-- Failures reported, oldest first. -/
  reported : List Entry

/-- Nothing has happened. -/
def Ledger.empty {β : Type} : Ledger β := ⟨0, 0, 0, [], [], [], []⟩

/-! ### What messages carry -/

namespace Message

variable {β : Type}

/-- The tasks of a scope that a message carries. A failure counts as one. -/
def carried (id? : Option GlobalId) : Message β → ℕ
  | .handOff tokens _ => tokens.countP fun t => some t.id = id?
  | .report _ _ => 0
  | .failure id _ => if some id = id? then 1 else 0

/-- The message carries a task, a report or a failure of the scope with that identity. -/
def Concerns (id : GlobalId) : Message β → Prop
  | .handOff tokens _ => ∃ t ∈ tokens, t.id = id
  | .report id' _ => id' = id
  | .failure id' _ => id' = id

/-- The identity whose root the message is for. A task is for no root. -/
def rootId? : Message β → Option GlobalId
  | .handOff _ _ => none
  | .report id _ => some id
  | .failure id _ => some id

/-- What a message reports of a scope. -/
def deltas? (id? : Option GlobalId) : Message β → Option (List Int)
  | .handOff _ _ => none
  | .report id deltas => if some id = id? then some deltas else none
  | .failure _ _ => none

theorem Concerns.of_rootId {m : Message β} {id : GlobalId} (h : m.rootId? = some id) :
    m.Concerns id := by
  cases m <;> cases h <;> rfl

theorem Concerns.rootId {m : Message β} {id id' : GlobalId} (h : m.Concerns id)
    (h' : m.rootId? = some id') : id' = id := by
  cases m <;> cases h' <;> exact h

end Message

section Packets

variable {β : Type}

/-- The tasks of a scope that some packets carry to the place at position `k`. -/
def carriedAt (id? : Option GlobalId) (k : ℕ) (pks : List (Packet (Message β))) : ℕ :=
  (pks.map fun pk => if pk.dest.index = k then pk.content.carried id? else 0).sum

/-- The episodes of a scope that some packets report. -/
def reportsOf (id? : Option GlobalId) (pks : List (Packet (Message β))) : List Episode :=
  pks.filterMap fun pk => (pk.content.deltas? id?).map fun d => ⟨pk.sender, Counters.slot d⟩

@[simp] theorem carriedAt_nil (id? : Option GlobalId) (k : ℕ) :
    carriedAt id? k ([] : List (Packet (Message β))) = 0 := rfl

@[simp] theorem carriedAt_append (id? : Option GlobalId) (k : ℕ) (a b : List (Packet (Message β))) :
    carriedAt id? k (a ++ b) = carriedAt id? k a + carriedAt id? k b := by simp [carriedAt]

@[simp] theorem carriedAt_cons (id? : Option GlobalId) (k : ℕ) (pk : Packet (Message β))
    (pks : List (Packet (Message β))) :
    carriedAt id? k (pk :: pks) =
      (if pk.dest.index = k then pk.content.carried id? else 0) + carriedAt id? k pks := by
  simp [carriedAt]

@[simp] theorem reportsOf_nil (id? : Option GlobalId) :
    reportsOf id? ([] : List (Packet (Message β))) = [] := rfl

@[simp] theorem reportsOf_append (id? : Option GlobalId) (a b : List (Packet (Message β))) :
    reportsOf id? (a ++ b) = reportsOf id? a ++ reportsOf id? b := List.filterMap_append ..

@[simp] theorem reportsOf_cons (id? : Option GlobalId) (pk : Packet (Message β))
    (pks : List (Packet (Message β))) :
    reportsOf id? (pk :: pks) =
      ((pk.content.deltas? id?).map fun d => ⟨pk.sender, Counters.slot d⟩).toList ++
        reportsOf id? pks := by
  unfold reportsOf
  rw [List.filterMap_cons]
  cases pk.content.deltas? id? <;> rfl

end Packets

namespace World

variable {β : Type}

section Names

variable {ν : Type → Type} {w w' : World ν β} {r s : Serial}

/-! ### The instances of a scope -/

def idOf? (w : World ν β) (s : Serial) : Option GlobalId := (w.instance? s).bind (·.id)

def placeOf? (w : World ν β) (s : Serial) : Option PlaceId := (w.instance? s).map (·.place)

/-- Two instances are of one scope: they are the same, or they have the same identity. -/
def Akin (w : World ν β) (r s : Serial) : Prop :=
  s = r ∨ ((w.idOf? s).isSome ∧ w.idOf? s = w.idOf? r)

instance (w : World ν β) (r s : Serial) : Decidable (w.Akin r s) := by
  unfold Akin
  infer_instance

/-- The instance is at the place at position `k`. -/
def SitsAt (w : World ν β) (s : Serial) (k : ℕ) : Prop :=
  (w.placeOf? s).map PlaceId.index = some k

instance (w : World ν β) (s : Serial) (k : ℕ) : Decidable (w.SitsAt s k) := by
  unfold SitsAt
  infer_instance

/-- How many of some tasks belong to the scope of `r` and are bound for the place at position `k`. -/
def unitsAt (w : World ν β) (r : Serial) (k : ℕ) (us : Multiset (Serial × PlaceId)) : ℕ :=
  us.countP fun u => w.Akin r u.1 ∧ u.2.index = k

/-- How many of some tasks belong to the scope of `r` and are, or were, at the place at position `k`. -/
def tasksAt (w : World ν β) (r : Serial) (k : ℕ) (ts : Multiset Serial) : ℕ :=
  ts.countP fun s => w.Akin r s ∧ w.SitsAt s k

@[simp] theorem Akin.refl (w : World ν β) (r : Serial) : w.Akin r r := .inl rfl

theorem Akin.symm (h : w.Akin r s) : w.Akin s r := by
  rcases h with rfl | ⟨h, he⟩
  · exact .refl w s
  · exact .inr ⟨he ▸ h, he.symm⟩

/-- An instance with an identity is of the scopes that have this identity. -/
theorem akin_iff {id : GlobalId} (hs : w.idOf? s = some id) :
    w.Akin r s ↔ w.idOf? r = some id := by
  constructor
  · rintro (rfl | ⟨-, he⟩)
    · exact hs
    · exact he.symm.trans hs
  · exact fun hr => .inr ⟨by rw [hs]; rfl, hs.trans hr.symm⟩

/-- Instances of one scope stay so as long as they keep their identity. -/
theorem Akin.of_ids (h : w.Akin r s)
    (hid : ∀ t id, w.idOf? t = some id → w'.idOf? t = some id) : w'.Akin r s := by
  rcases h with rfl | ⟨hs, he⟩
  · exact .refl w' s
  · obtain ⟨id, hs⟩ := Option.isSome_iff_exists.mp hs
    exact (akin_iff (hid s id hs)).mpr (hid r id (he ▸ hs))

@[simp] theorem unitsAt_zero (w : World ν β) (r : Serial) (k : ℕ) : w.unitsAt r k 0 = 0 := rfl

@[simp] theorem unitsAt_cons (w : World ν β) (r : Serial) (k : ℕ) (u : Serial × PlaceId)
    (us : Multiset (Serial × PlaceId)) :
    w.unitsAt r k (u ::ₘ us) =
      w.unitsAt r k us + if w.Akin r u.1 ∧ u.2.index = k then 1 else 0 := Multiset.countP_cons ..

@[simp] theorem unitsAt_add (w : World ν β) (r : Serial) (k : ℕ) (us us' : Multiset (Serial × PlaceId)) :
    w.unitsAt r k (us + us') = w.unitsAt r k us + w.unitsAt r k us' := Multiset.countP_add ..

@[simp] theorem tasksAt_zero (w : World ν β) (r : Serial) (k : ℕ) : w.tasksAt r k 0 = 0 := rfl

@[simp] theorem tasksAt_cons (w : World ν β) (r : Serial) (k : ℕ) (s : Serial) (ts : Multiset Serial) :
    w.tasksAt r k (s ::ₘ ts) =
      w.tasksAt r k ts + if w.Akin r s ∧ w.SitsAt s k then 1 else 0 := Multiset.countP_cons ..

theorem tasksAt_erase {ts : Multiset Serial} (hs : s ∈ ts) (r : Serial) (k : ℕ) :
    w.tasksAt r k (ts.erase s) + (if w.Akin r s ∧ w.SitsAt s k then 1 else 0) = w.tasksAt r k ts := by
  conv_rhs => rw [← Multiset.cons_erase hs]
  rw [tasksAt_cons]

/-- Only the identities matter, and only those of the tasks counted. -/
theorem unitsAt_congr {us : Multiset (Serial × PlaceId)} {k : ℕ}
    (h : ∀ u ∈ us, w'.Akin r u.1 ↔ w.Akin r u.1) : w'.unitsAt r k us = w.unitsAt r k us :=
  Multiset.countP_congr rfl fun u hu => propext (and_congr_left' (h u hu))

theorem tasksAt_congr {ts : Multiset Serial} {k : ℕ}
    (h : ∀ s ∈ ts, (w'.Akin r s ↔ w.Akin r s) ∧ w'.placeOf? s = w.placeOf? s) :
    w'.tasksAt r k ts = w.tasksAt r k ts :=
  Multiset.countP_congr rfl fun s hs => by
    obtain ⟨h1, h2⟩ := h s hs
    rw [SitsAt, SitsAt, h2, h1]

theorem akin_congr (h : w'.idOf? = w.idOf?) : w'.Akin = w.Akin := by
  funext r s
  unfold Akin
  rw [h]

theorem sitsAt_of (h : w.placeOf? s = some p) (k : ℕ) : w.SitsAt s k ↔ p.index = k := by
  unfold SitsAt
  rw [h]
  simp

/-! ### Identities in use -/

/-- The next local number that a place will hand out. -/
def nextOf? (w : World ν β) (p : PlaceId) : Option UInt32 := (w.table? p).map (·.next)

theorem nextOf?_unbind (w : World ν β) (p : PlaceId) (id : GlobalId) (s : Serial) :
    (w.unbind p id s).nextOf? = w.nextOf? := by
  funext q
  unfold nextOf?
  rw [table?_unbind]
  split_ifs with hq
  · subst hq
    cases w.table? q with
    | none => rfl
    | some r =>
      simp only [Option.map_some, Registry.removeIf]
      split
      · split_ifs <;> rfl
      · rfl
  · rfl

/-- The identities in use have been handed out. -/
def Allocated (w : World ν β) : Prop :=
  ∀ s id, w.idOf? s = some id → ∃ n, w.nextOf? id.home = some n ∧ id.serial.toNat < n.toNat

theorem Allocated.congr (h : w.Allocated) (hid : w'.idOf? = w.idOf?)
    (hnext : w'.nextOf? = w.nextOf?) : w'.Allocated := by
  unfold Allocated
  rw [hid, hnext]
  exact h

/-- The identity is that of a scope: its home place has the root. -/
def Rooted (w : World ν β) (id : GlobalId) : Prop :=
  ∃ r, w.idOf? r = some id ∧ w.placeOf? r = some id.home

/-- What a message says of scopes is about scopes that are there, and what is meant for a root is
sent to it, from another place. -/
def Addressed (w : World ν β) (pk : Packet (Message β)) : Prop :=
  match pk.content with
  | .handOff tokens _ => ∀ t ∈ tokens, w.Rooted t.id
  | .report id _ => w.Rooted id ∧ pk.dest = id.home ∧ pk.sender ≠ id.home
  | .failure id _ => w.Rooted id ∧ pk.dest = id.home ∧ pk.sender ≠ id.home

/-- How identities are used by the instances, the registries and some messages. -/
structure Named (w : World ν β) (left : List Serial) (pks : List (Packet (Message β))) : Prop where
  rooted : ∀ s id, w.idOf? s = some id → w.Rooted id
  unique : ∀ r r' id, w.idOf? r = some id → w.idOf? r' = some id →
    w.placeOf? r = some id.home → w.placeOf? r' = some id.home → r = r'
  allocated : w.Allocated
  /-- A root is bound until its scope is left. -/
  bound : ∀ r id, w.idOf? r = some id → w.placeOf? r = some id.home → r ∉ left →
    w.bound? id.home id = some (.scope r)
  addressed : ∀ pk ∈ pks, w.Addressed pk

/-- The same instances with the same identities. -/
structure Namesakes (w w' : World ν β) : Prop where
  ids : w'.idOf? = w.idOf?
  places : w'.placeOf? = w.placeOf?

namespace Namesakes

theorem akin (h : Namesakes w w') : w'.Akin = w.Akin := akin_congr h.ids

theorem unitsAt (h : Namesakes w w') : w'.unitsAt = w.unitsAt := by
  funext r k us
  exact unitsAt_congr fun u _ => by rw [h.akin]

theorem tasksAt (h : Namesakes w w') : w'.tasksAt = w.tasksAt := by
  funext r k ts
  exact tasksAt_congr fun s _ => ⟨by rw [h.akin], by rw [h.places]⟩

theorem rooted (h : Namesakes w w') : w'.Rooted = w.Rooted := by
  funext id
  unfold Rooted
  rw [h.ids, h.places]

theorem addressed (h : Namesakes w w') : w'.Addressed = w.Addressed := by
  funext pk
  unfold Addressed
  rw [h.rooted]

end Namesakes

/-- The same instances with the same identities, and the same bindings of roots. -/
structure Steady (w w' : World ν β) : Prop extends Namesakes w w' where
  next : w'.nextOf? = w.nextOf?
  roots : ∀ id : GlobalId, w'.bound? id.home id = w.bound? id.home id

namespace Steady

theorem refl (w : World ν β) : Steady w w := ⟨⟨rfl, rfl⟩, rfl, fun _ => rfl⟩

theorem named (h : Steady w w') {left : List Serial} {pks pks' : List (Packet (Message β))}
    (hn : Named w left pks) (hp : ∀ pk ∈ pks', pk ∈ pks ∨ w.Addressed pk) : Named w' left pks' := by
  refine
    { rooted := ?_, unique := ?_, allocated := ?_, bound := ?_, addressed := fun pk hm => ?_ }
  · rw [h.ids, h.rooted]; exact hn.rooted
  · rw [h.ids, h.places]; exact hn.unique
  · exact hn.allocated.congr h.ids h.next
  · intro r id h1 h2 h3
    rw [h.roots]
    exact hn.bound r id (h.ids ▸ h1) (h.places ▸ h2) h3
  · rw [h.addressed]
    exact (hp pk hm).elim (hn.addressed pk) id

end Steady

theorem idOf?_eq {i : Instance} (hi : w.instance? s = some i) : w.idOf? s = i.id := by
  simp [World.idOf?, hi]

theorem placeOf?_eq {i : Instance} (hi : w.instance? s = some i) : w.placeOf? s = some i.place := by
  simp [placeOf?, hi]

/-- The root of a scope. -/
theorem Rooted.root {id : GlobalId} (h : w.Rooted id) :
    ∃ r i, w.instance? r = some i ∧ i.id = some id ∧ i.place = id.home ∧ i.remoteId? = none := by
  obtain ⟨r, hid, hp⟩ := h
  obtain ⟨i, hi, hiid⟩ := Option.bind_eq_some_iff.mp hid
  have hip : i.place = id.home := by
    rw [placeOf?_eq hi] at hp
    exact Option.some.inj hp
  refine ⟨r, i, hi, hiid, hip, Instance.remoteId?_eq_none.mpr fun id' hx => ?_⟩
  rw [hiid] at hx
  cases hx
  exact hip.symm

theorem steady_of_alike (h : Alike w w') : Steady w w' := by
  refine ⟨⟨?_, ?_⟩, ?_, fun id => by rw [h.bound?]⟩
  · funext s
    simp [World.idOf?, h.instance?]
  · funext s
    simp [placeOf?, h.instance?]
  · funext p
    simp [nextOf?, h.tables]

/-- One instance changes, and neither its place nor its identity. -/
theorem namesakes_of_set {i j : Instance} (hi : w.instance? s = some i)
    (hinst : ∀ t, w'.instance? t = if t = s then some j else w.instance? t)
    (hp : j.place = i.place) (hid : j.id = i.id) : Namesakes w w' := by
  constructor
  · funext t
    unfold World.idOf?
    rw [hinst]
    split_ifs with hts
    · rw [hts, hi, Option.bind_some, Option.bind_some, hid]
    · rfl
  · funext t
    unfold placeOf?
    rw [hinst]
    split_ifs with hts
    · rw [hts, hi, Option.map_some, Option.map_some, hp]
    · rfl

theorem steady_of_set {i j : Instance} (hi : w.instance? s = some i)
    (hinst : ∀ t, w'.instance? t = if t = s then some j else w.instance? t)
    (hp : j.place = i.place) (hid : j.id = i.id) (hnext : w'.nextOf? = w.nextOf?)
    (hroots : ∀ id : GlobalId, w'.bound? id.home id = w.bound? id.home id) : Steady w w' :=
  ⟨namesakes_of_set hi hinst hp hid, hnext, hroots⟩

theorem namesakes_submit (w : World ν β) (s : Serial) : Namesakes w (w.submit s).2 := by
  cases hi : w.instance? s with
  | none => simpa [World.submit, hi] using (Steady.refl w).toNamesakes
  | some i =>
    cases hr : i.remoteId? with
    | none =>
      rw [submit_home hi hr]
      exact (Steady.refl w).toNamesakes
    | some id =>
      cases hb : i.bound with
      | true =>
        rw [submit_bound hi hr hb]
        exact namesakes_of_set hi (instance?_setInstance hi _) rfl rfl
      | false =>
        cases hf : w.bound? i.place id with
        | none =>
          rw [submit_rebinds hi hr hb hf]
          exact namesakes_of_set hi (instance?_setInstance hi _) rfl rfl
        | some b =>
          rw [submit_refuses hi hr hb hf]
          exact (Steady.refl w).toNamesakes

end Names

/-! ### Entries in the ledger -/

section Entries

/-- The report that is due when a task of an instance ends. -/
def due (w : World Pairwise β) (s : Serial) : List (Packet (Message β)) :=
  match w.instance? s with
  | none => []
  | some i =>
    match i.remoteId? with
    | none => []
    | some id =>
      match (i.counters.tellAway i.place w.known).1 with
      | none => []
      | some deltas => [⟨i.place, id.home, .report id deltas⟩]

/-- The packet that forwards a failure, unless it is reported at home. -/
def forward (w : World Pairwise β) (s : Serial) (f : Failure) : List (Packet (Message β)) :=
  match w.instance? s with
  | none => []
  | some i =>
    match i.remoteId? with
    | none => []
    | some id => [⟨i.place, id.home, .failure id f.encode⟩]

/-- The entry of a failure that a body reports to an instance at its place. -/
def entry (w : World Pairwise β) (s : Serial) (f : Failure) : List Entry :=
  match w.instance? s with
  | none => []
  | some i => [⟨s, i.place, f⟩]

/-- Those of some packets that are refused. -/
def refused (w : World Pairwise β) (pks : List (Packet (Message β))) : List (Packet (Message β)) :=
  pks.filter fun pk => w.net.Refuses pk.dest

end Entries

/-- The ledger after a task of an instance has ended. -/
def afterTell (w : World Pairwise β) (g : Ledger β) (s : Serial) : Ledger β :=
  { g with
    held := g.held.erase s
    told := s ::ₘ g.told
    lost := g.lost ++ w.refused (w.due s) }

/-- The ledger after a failure has been reported to an instance. A failure forwarded is a task of
the home place. -/
def afterFailure (w : World Pairwise β) (g : Ledger β) (s : Serial) (f : Failure) : Ledger β :=
  let sent := (w.forward s f).filter fun pk => ¬ w.net.Refuses pk.dest
  { g with
    spawned := (sent.map fun pk => (s, pk.dest)) + g.spawned
    lost := g.lost ++ w.refused (w.forward s f)
    reported := g.reported ++ w.entry s f }

/-! ### The account of a scope -/

section Accounts

variable {w w' : World Pairwise β} {g g' : Ledger β} {limbo limbo' : Multiset (Serial × PlaceId)}
  {arrived arrived' : List (Packet (Message β))} {r s : Serial} {i j : Instance} {p : PlaceId}
  {id : GlobalId}

/-- The episode that goes on at a place, if its instance of the scope holds a task. -/
def current (w : World Pairwise β) (p : PlaceId) : Option GlobalId → List Episode
  | none => []
  | some id =>
    match w.bound? p id with
    | some (.scope s) =>
      match w.instance? s with
      | some i =>
        if i.remoteId? = some id ∧ i.counters.count ≠ 0 then [⟨p, i.counters.unreported⟩] else []
      | none => []
    | _ => []

/-- The tasks of the scope of `r` spawned for the place at position `k` less those that ended
there. -/
def outstanding (w : World Pairwise β) (g : Ledger β) (r : Serial) (k : ℕ) : ℤ :=
  w.unitsAt r k g.spawned - w.tasksAt r k g.told

/-- The episodes at a place that the root has not heard of: those reported, and the one that goes
on. Reports that were lost come after those on their way, since from then on all were lost. -/
def episodes (w : World Pairwise β) (g : Ledger β) (p : PlaceId) (id? : Option GlobalId) :
    List Episode :=
  episodesAt p (reportsOf id? (w.net.packets ++ g.lost)) ++ w.current p id?

/-- The account of the scope whose root is `r`. -/
def account (w : World Pairwise β) (g : Ledger β) (r : Serial) (i : Instance) : Account where
  home := i.place
  tally := i.counters.tally i.place
  episodes p := w.episodes g p i.id
  outstanding := w.outstanding g r

/-- The accounts of all scopes are sound, and each task spawned has ended, or is held, or is on its
way. Within an operation, tasks in `limbo` have been counted and not yet handed over, and messages
that have `arrived` have been taken off the network and not yet applied. -/
structure Consistent (w : World Pairwise β) (g : Ledger β) (limbo : Multiset (Serial × PlaceId))
    (arrived : List (Packet (Message β))) : Prop where
  tidy : Tidy w g.held
  named : Named w g.left (w.net.packets ++ g.lost ++ g.astray ++ arrived)
  ended : ∀ s ∈ g.told, (w.instance? s).isSome
  begun : ∀ u ∈ g.spawned + limbo, (w.instance? u.1).isSome
  exact : ∀ r i, w.instance? r = some i → i.remoteId? = none → i.counters.Exact
  /-- An instance that holds no task has reported everything. -/
  idle : ∀ s i id, w.instance? s = some i → i.remoteId? = some id → s ∉ g.held →
    i.counters.unreported = 0
  sound : ∀ r i, w.instance? r = some i → i.remoteId? = none → (w.account g r i).Sound
  whereabouts : ∀ r i k, w.instance? r = some i → i.remoteId? = none →
    w.unitsAt r k g.spawned = w.tasksAt r k g.told + w.tasksAt r k g.held +
      carriedAt i.id k (w.net.packets ++ g.astray ++ arrived) + w.unitsAt r k limbo
  closed : ∀ r ∈ g.left, ∃ i, w.instance? r = some i ∧ i.remoteId? = none ∧
    ∀ k, i.counters.tally i.place k = 0
  lost : ∀ pk ∈ g.lost, w.net.Refuses pk.dest

/-- An instance that holds a task is in the middle of an episode. -/
theorem current_of_held (h : Tidy w g.held) (hi : w.instance? s = some i)
    (hr : i.remoteId? = some id) (hs : s ∈ g.held) :
    w.current i.place (some id) = [⟨i.place, i.counters.unreported⟩] := by
  have hc : i.counters.count ≠ 0 := by
    rw [h.count s i id hi hr]
    exact_mod_cast Multiset.count_ne_zero.mpr hs
  simp [current, h.bound_of_held hi hr hs, hi, hr, hc]

/-- Where no instance of the scope holds a task, no episode goes on. -/
theorem current_of_idle (h : Tidy w g.held)
    (hs : ∀ s i, w.instance? s = some i → i.remoteId? = some id → i.place = p → s ∉ g.held) :
    w.current p (some id) = [] := by
  cases hb : w.bound? p id with
  | none => simp [current, hb]
  | some b =>
    obtain ⟨s, i, rfl, hi, hp, -⟩ := h.registered p id b hb
    simp only [current, hb, hi]
    split_ifs with hc
    · exact absurd (h.held_of_count hi hc.1 hc.2) (hs s i hi hc.1 hp)
    · rfl

/-- The episode depends on the instance that is bound, if that is one of the scope away from home. -/
theorem current_congr {id? : Option GlobalId}
    (hb : ∀ id, id? = some id → w'.bound? p id = w.bound? p id)
    (hi : ∀ id s, id? = some id → w.bound? p id = some (.scope s) →
      w'.instance? s = w.instance? s ∨
        (∀ i, w.instance? s = some i → i.remoteId? = none) ∧
          ∀ j, w'.instance? s = some j → j.remoteId? = none) :
    w'.current p id? = w.current p id? := by
  cases id? with
  | none => rfl
  | some id =>
    simp only [current, hb id rfl]
    cases hbd : w.bound? p id with
    | none => rfl
    | some b =>
      cases b with
      | foreign => rfl
      | scope s =>
        rcases hi id s rfl hbd with h | ⟨h, h'⟩
        · simp only [h]
        · cases hw : w.instance? s <;> cases hw' : w'.instance? s <;> simp_all

/-- Where all tallies are zero, nothing of the scope is left: no task is held, none is on its way,
and no report is. -/
theorem Consistent.settled (h : Consistent w g limbo arrived) (hi : w.instance? r = some i)
    (hr : i.remoteId? = none) (hz : ∀ k, i.counters.tally i.place k = 0) :
    (∀ p, w.episodes g p i.id = []) ∧
      ∀ k, w.unitsAt r k g.spawned = w.tasksAt r k g.told ∧ w.tasksAt r k g.held = 0 ∧
        carriedAt i.id k (w.net.packets ++ g.astray ++ arrived) = 0 ∧ w.unitsAt r k limbo = 0 := by
  obtain ⟨he, ho⟩ := (h.sound r i hi hr).settled_of_tally_zero hz
  refine ⟨he, fun k => ?_⟩
  have h1 : w.outstanding g r k = 0 := ho k
  have h2 := h.whereabouts r i k hi hr
  unfold outstanding at h1
  omega

/-- A scope that was left has no task. -/
theorem Consistent.open_of_held (h : Consistent w g limbo arrived) (hi : w.instance? r = some i)
    (hr : i.remoteId? = none) (hrs : w.Akin r s) (hs : s ∈ g.held) : r ∉ g.left := fun hl => by
  obtain ⟨i', hi', -, hz⟩ := h.closed r hl
  obtain rfl : i = i' := Option.some.inj (hi.symm.trans hi')
  obtain ⟨x, hx⟩ := Option.isSome_iff_exists.mp (h.tidy.made s hs)
  have h0 := ((h.settled hi hr hz).2 x.place.index).2.1
  have hpos : 0 < w.tasksAt r x.place.index g.held :=
    Multiset.countP_pos.mpr ⟨s, hs, hrs, (sitsAt_of (placeOf?_eq hx) _).mpr rfl⟩
  omega

end Accounts

end World

end Quiescence
