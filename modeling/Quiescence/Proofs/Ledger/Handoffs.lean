/-
# Tasks of several scopes keep the accounts

A task is counted by each of its scopes, and accepted and told by each. Between
the count and the acceptance it is in limbo, or in a message: one unit for each
scope. Messages carry tokens, which name the same scopes.

* `Consistent.spawnHere`: a task for the place itself is counted and accepted.
* `Consistent.spawnAt`: a task for another place is in a message, or taken back.
-/
import Quiescence.Proofs.Ledger.Failures
import Quiescence.Proofs.Ledger.Scopes

namespace Quiescence

namespace World

variable {β : Type} {w w' : World Pairwise β} {g g' : Ledger β}
  {limbo limbo' : Multiset (Serial × PlaceId)} {arrived arrived' : List (Packet (Message β))}
  {r s t : Serial} {i j : Instance} {p target : PlaceId} {id : GlobalId} {fs : List Serial}

/-- A task for a place, once for each of its scopes. -/
def units (fs : List Serial) (target : PlaceId) : Multiset (Serial × PlaceId) :=
  (fs.map fun s => (s, target) : List (Serial × PlaceId))

@[simp] theorem units_nil (target : PlaceId) : units [] target = 0 := rfl

@[simp] theorem units_cons (s : Serial) (fs : List Serial) (target : PlaceId) :
    units (s :: fs) target = (s, target) ::ₘ units fs target := rfl

theorem steady_spawnAll (w : World Pairwise β) (fs : List Serial) (target : PlaceId) :
    Steady w (w.spawnAll fs target) := ((Offset.refl w).spawnAll fs target).steady

theorem net_spawnAll (w : World Pairwise β) (fs : List Serial) (target : PlaceId) :
    (w.spawnAll fs target).net = w.net := ((Offset.refl w).spawnAll fs target).net

/-! ### Counting and accepting -/

theorem spawnAll_cons (w : World Pairwise β) (s : Serial) (fs : List Serial) (target : PlaceId) :
    w.spawnAll (s :: fs) target = (w.spawn s target).spawnAll fs target := rfl

theorem submitAll_cons (w : World Pairwise β) (s : Serial) (fs : List Serial) :
    w.submitAll (s :: fs) = (w.submit s).2.submitAll fs := rfl

/-- Each instance that counts the task holds one already: the task that spawns, or the body of a
scope around it. -/
theorem Consistent.spawnAll (h : Consistent w g limbo arrived) (hs : ∀ s ∈ fs, s ∈ g.held)
    (target : PlaceId) :
    Consistent (w.spawnAll fs target) { g with spawned := units fs target + g.spawned }
      (units fs target + limbo) arrived := by
  induction fs generalizing w g limbo with
  | nil => simpa [World.spawnAll] using h
  | cons s fs ih =>
    have h1 := h.spawn (hs s (List.mem_cons_self ..)) target
    have h2 := ih h1 fun t ht => hs t (List.mem_cons_of_mem _ ht)
    simp only [Multiset.add_cons] at h2
    simpa only [units_cons, Multiset.cons_add, spawnAll_cons] using h2

theorem Consistent.submitAll (h : Consistent w g (units fs p + limbo) arrived)
    (hs : ∀ s ∈ fs, s ∈ g.held ∧ w.placeOf? s = some p) :
    Consistent (w.submitAll fs) { g with held := ↑fs + g.held } limbo arrived := by
  induction fs generalizing w g with
  | nil => simpa [World.submitAll] using h
  | cons s fs ih =>
    obtain ⟨hsh, hsp⟩ := hs s (List.mem_cons_self ..)
    obtain ⟨i, hi, hip⟩ := Option.map_eq_some_iff.mp hsp
    have h1 := h.submit (units fs p + limbo) arrived hi
      (fun id hr => h.tidy.busy s i id hi hr hsh) (fun _ => .inl) (fun u hu => by simp [hu]) fun r x k _ => by
        simp only [units_cons, Multiset.cons_add, unitsAt_cons, hip]
        omega
    have h2 := ih h1 fun t ht => by
      obtain ⟨hth, htp⟩ := hs t (List.mem_cons_of_mem _ ht)
      exact ⟨Multiset.mem_cons_of_mem hth, by rw [(namesakes_submit w s).places, htp]⟩
    simp only [Multiset.add_cons] at h2
    simpa only [← Multiset.cons_coe, Multiset.cons_add, submitAll_cons] using h2

/-- A task for the place where its scopes' instances are. -/
theorem Consistent.spawnHere (h : Consistent w g limbo arrived) {task : Task β}
    (hs : ∀ s ∈ task.finishes, s ∈ g.held ∧ w.placeOf? s = some p) :
    Consistent (w.spawnHere task p)
      { g with
        spawned := units task.finishes p + g.spawned
        held := ↑task.finishes + g.held } limbo arrived := by
  have h1 := h.spawnAll (fun s hx => (hs s hx).1) p
  have h2 := h1.submitAll fun s hx =>
    ⟨(hs s hx).1, by rw [(steady_spawnAll w _ _).places]; exact (hs s hx).2⟩
  exact h2.alike (alike_enqueue _ _)

/-! ### Handing over -/

/-- The identities that were given are kept, and no instance moves. -/
structure Extends (w w' : World Pairwise β) : Prop where
  net : w'.net = w.net
  places : w'.placeOf? = w.placeOf?
  ids : ∀ s id, w.idOf? s = some id → w'.idOf? s = some id

namespace Extends

theorem refl (w : World Pairwise β) : Extends w w := ⟨rfl, rfl, fun _ _ h => h⟩

theorem trans {w'' : World Pairwise β} (h : Extends w w') (h' : Extends w' w'') : Extends w w'' :=
  ⟨h'.net.trans h.net, h'.places.trans h.places, fun s id hs => h'.ids s id (h.ids s id hs)⟩

end Extends

/-- A token names the scope of the instance that gave it. -/
theorem Consistent.prepared (h : Consistent w g limbo arrived) (s : Serial) :
    Extends w (w.prepareTransfer s).2 ∧
      ∀ tok, (w.prepareTransfer s).1 = .ok tok → (w.prepareTransfer s).2.idOf? s = some tok.id := by
  cases hi : w.instance? s with
  | none =>
    rw [show w.prepareTransfer s = (.error (.allocate (.unknown default w.known)), w) by
      simp [World.prepareTransfer, hi]]
    exact ⟨.refl w, fun tok ht => by cases ht⟩
  | some i =>
    cases hid : i.id with
    | some id =>
      rw [prepareTransfer_known hi hid]
      refine ⟨.refl w, fun tok ht => ?_⟩
      cases ht
      rw [idOf?_eq hi, hid]
    | none =>
      rcases prepareTransfer_cases (h.tidy.built s i hi) h.named.allocated hi hid with ⟨e, he⟩ | ⟨id, hok, hc⟩
      · rw [he]
        exact ⟨.refl w, fun tok ht => by cases ht⟩
      · refine ⟨⟨hc.net, hc.placeOf?, fun t id' ht => ?_⟩, fun tok ht => ?_⟩
        · rw [hc.idOf?, if_neg, ht]
          rintro rfl
          rw [hc.idOf?_self] at ht
          cases ht
        · rw [hok] at ht
          cases ht
          rw [hc.idOf?, if_pos rfl]

/-- The instances have the identities that the tokens carry. -/
def Tokened (w : World Pairwise β) (fs : List Serial) (tokens : List Token) : Prop :=
  List.Forall₂ (fun s t => w.idOf? s = some t.id) fs tokens

theorem Tokened.exists_of_mem {tokens : List Token} {tok : Token} (h : Tokened w fs tokens)
    (ht : tok ∈ tokens) : ∃ s ∈ fs, w.idOf? s = some tok.id := by
  induction h with
  | nil => cases ht
  | @cons s tok' fs tokens hs _ ih =>
    rcases List.mem_cons.mp ht with rfl | ht
    · exact ⟨s, List.mem_cons_self .., hs⟩
    · obtain ⟨t, htm, hid⟩ := ih ht
      exact ⟨t, List.mem_cons_of_mem _ htm, hid⟩

theorem Consistent.prepareAll (h : Consistent w g limbo arrived) (fs : List Serial) :
    Consistent (w.prepareAll fs).2 g limbo arrived ∧ Extends w (w.prepareAll fs).2 ∧
      ∀ tokens, (w.prepareAll fs).1 = .ok tokens → Tokened (w.prepareAll fs).2 fs tokens := by
  induction fs generalizing w with
  | nil =>
    refine ⟨h, .refl w, fun tokens ht => ?_⟩
    cases ht
    exact .nil
  | cons s fs ih =>
    obtain ⟨h1, h2⟩ := h.prepared s
    obtain ⟨h3, h4, h5⟩ := ih (h.prepareTransfer s)
    have h0 := h.prepareTransfer s
    simp only [World.prepareAll]
    rcases hw : w.prepareTransfer s with ⟨r, w₁⟩
    rw [hw] at h0 h1 h2 h3 h4 h5
    cases r with
    | error e => exact ⟨h0, h1, fun tokens ht => by cases ht⟩
    | ok tok =>
      simp only at h0 h1 h2 h3 h4 h5 ⊢
      rcases hw' : w₁.prepareAll fs with ⟨r', w₂⟩
      rw [hw'] at h3 h4 h5
      cases r' with
      | error e => exact ⟨h3, h1.trans h4, fun tokens ht => by cases ht⟩
      | ok ts =>
        refine ⟨h3, h1.trans h4, fun tokens ht => ?_⟩
        cases ht
        exact .cons (h4.ids s _ (h2 tok rfl)) (h5 ts rfl)

theorem rooted_of_tokened {left : List Serial} {pks : List (Packet (Message β))} {tokens : List Token}
    (hn : Named w left pks) (ht : Tokened w fs tokens) : ∀ tok ∈ tokens, w.Rooted tok.id :=
  fun tok hx => by
    obtain ⟨s, -, hs⟩ := ht.exists_of_mem hx
    exact hn.rooted s tok.id hs

/-- The tasks that a hand-off carries are those of the instances that gave the tokens. -/
theorem unitsAt_units {tokens : List Token} (ht : Tokened w fs tokens) (hi : w.instance? r = some i)
    (k : ℕ) (body : β) (target : PlaceId) : w.unitsAt r k (units fs target) =
      if target.index = k then (Message.handOff tokens body).carried i.id else 0 := by
  induction ht with
  | nil => simp [Message.carried]
  | @cons s tok fs tokens hs _ ih =>
    have hak : w.Akin r s ↔ some tok.id = i.id := by
      rw [akin_iff hs, idOf?_eq hi, eq_comm]
    simp only [units_cons, unitsAt_cons, ih, Message.carried, List.countP_cons, hak,
      decide_eq_true_eq]
    split_ifs <;> simp_all

/-- The ledger after a task has been spawned at a place for another, or for that place itself. -/
def afterSpawn (w : World Pairwise β) (g : Ledger β) (task : Task β) (p target : PlaceId) : Ledger β :=
  match (w.spawnAt task p target).1 with
  | .ok _ =>
    { g with
      spawned := units task.finishes target + g.spawned
      held := if target = p then ↑task.finishes + g.held else g.held }
  | .error _ => g

/-- A message for another place, with all the tokens of a task, takes the task out of limbo. -/
theorem Consistent.send (h : Consistent w g (units fs target + limbo) arrived) {tokens : List Token}
    (ht : Tokened w fs tokens) (p : PlaceId) (body : β) :
    Consistent (w.withPackets (w.net.packets ++ [⟨p, target, .handOff tokens body⟩])) g limbo arrived :=
  h.post ⟨p, target, .handOff tokens body⟩ (rooted_of_tokened h.named ht) (fun _ => rfl)
    fun _ _ k hx => unitsAt_units ht hx k body target

/-- For the place itself the instances must be there; for another they may live anywhere. -/
theorem Consistent.spawnAt (h : Consistent w g limbo arrived) {task : Task β}
    (hs : ∀ s ∈ task.finishes, s ∈ g.held) {target : PlaceId}
    (hp : target = p → ∀ s ∈ task.finishes, w.placeOf? s = some p) :
    Consistent (w.spawnAt task p target).2 (w.afterSpawn g task p target) limbo arrived := by
  unfold afterSpawn
  by_cases htp : target = p
  · have hw : w.spawnAt task p target = (.ok (), w.spawnHere task target) := by
      simp [World.spawnAt, htp]
    rw [hw]
    simp only [if_pos htp]
    exact h.spawnHere (p := target) fun s hx => ⟨hs s hx, htp ▸ hp htp s hx⟩
  · obtain ⟨h1, h2, h3⟩ := h.prepareAll task.finishes
    simp only [World.spawnAt, if_neg htp]
    rcases hw : w.prepareAll task.finishes with ⟨r, w₁⟩
    rw [hw] at h1 h2 h3
    cases r with
    | error e => exact h1
    | ok tokens =>
      by_cases hn : w₁.net.Refuses target
      · obtain ⟨e, he⟩ : ∃ e, Network.send w₁.net ⟨p, target, .handOff tokens task.body⟩ = .error e :=
          Pairwise.send_refused hn
        simp only [World.send, net_spawnAll, he]
        exact h1.retract task.finishes target
      · have he : Network.send w₁.net ⟨p, target, .handOff tokens task.body⟩ = .ok _ :=
          Pairwise.send_accepted hn
        simp only [World.send, net_spawnAll, he]
        have ht : Tokened (w₁.spawnAll task.finishes target) task.finishes tokens := by
          unfold Tokened
          rw [(steady_spawnAll w₁ task.finishes target).ids]
          exact h3 tokens rfl
        have h4 := (h1.spawnAll hs target).send ht p task.body
        unfold withPackets at h4
        rw [net_spawnAll] at h4
        exact h4

end World

end Quiescence
