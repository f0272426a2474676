/-
# Operations that name nobody

Most operations count tasks. They make no instance, and give none an identity
or take it away; they bind identities away from home only, to instances that
have them (`Same`).
-/
import Quiescence.Proofs.Recording

namespace Quiescence

namespace World

variable {ν : Type → Type} {β : Type} {w w' w'' : World ν β} {s : Serial} {i j : Instance}
  {p : PlaceId} {id : GlobalId}

/-- No instance is made or gets another place, kind or identity. Bindings change away from home only,
and there to instances of the scope. -/
structure Same (w w' : World ν β) : Prop extends Steady w w' where
  kinds : w'.kindOf? = w.kindOf?
  homes : w'.tableHome? = w.tableHome?
  registered : ∀ p id b, w'.bound? p id = some b →
    w.bound? p id = some b ∨ ∃ s, b = .scope s ∧ w.idOf? s = some id ∧ w.placeOf? s = some p

namespace Same

theorem of_tables (hi : w'.instances = w.instances) (ht : w'.table? = w.table?) : Same w w' := by
  have hinst : w'.instance? = w.instance? := by
    funext s
    unfold instance?
    rw [hi]
  have hb : w'.bound? = w.bound? := by
    funext p id
    rw [bound?_eq, bound?_eq, ht]
  exact
    { ids := by unfold World.idOf?; rw [hinst]
      places := by unfold World.placeOf?; rw [hinst]
      next := by unfold nextOf?; rw [ht]
      roots := fun _ => by rw [hb]
      kinds := by unfold World.kindOf?; rw [hinst]
      homes := by unfold tableHome?; rw [ht]
      registered := fun _ _ _ h => .inl (hb ▸ h) }

theorem refl (w : World ν β) : Same w w := of_tables rfl rfl

theorem trans (h : Same w w') (h' : Same w' w'') : Same w w'' where
  ids := h'.ids.trans h.ids
  places := h'.places.trans h.places
  next := h'.next.trans h.next
  roots := fun id => (h'.roots id).trans (h.roots id)
  kinds := h'.kinds.trans h.kinds
  homes := h'.homes.trans h.homes
  registered := fun p id b hb => by
    rcases h'.registered p id b hb with hb | ⟨s, rfl, hid, hp⟩
    · exact h.registered p id b hb
    · exact .inr ⟨s, rfl, h.ids ▸ hid, h.places ▸ hp⟩

/-- One instance changes in what it counts. -/
theorem setInstance (hi : w.instance? s = some i) (hp : j.place = i.place) (hk : j.kind = i.kind)
    (hid : j.id = i.id) : Same w (w.setInstance s j) where
  toSteady := steady_of_set hi (instance?_setInstance hi j) hp hid rfl fun _ => rfl
  kinds := by
    funext t
    unfold World.kindOf?
    rw [instance?_setInstance hi]
    split_ifs with hts
    · rw [hts, hi, Option.map_some, Option.map_some, hk]
    · rfl
  homes := rfl
  registered := fun _ _ _ hb => .inl hb

/-- The registry of a place changes in what it binds to one identity from elsewhere. -/
theorem modifyIdentities {f : Registry Binding → Registry Binding} (hp : id.home ≠ p)
    (hhere : ∀ table, (f table).here = table.here) (hnext : ∀ table, (f table).next = table.next)
    (hkeep : ∀ table id', id' ≠ id → (f table).get? id' = table.get? id')
    (hget : ∀ table b, w.table? p = some table → (f table).get? id = some b →
      table.get? id = some b ∨ ∃ s, b = .scope s ∧ w.idOf? s = some id ∧ w.placeOf? s = some p) :
    Same w (w.modifyIdentities p f) where
  ids := rfl
  places := rfl
  next := by
    funext q
    unfold nextOf?
    rw [table?_modifyIdentities]
    split_ifs with hq
    · rw [hq, Option.map_map, show (·.next) ∘ f = fun table => table.next from funext hnext]
    · rfl
  roots := fun id' => by
    rw [bound?_modifyIdentities]
    split_ifs with hq
    · have hne : id' ≠ id := fun h => hp (h ▸ hq)
      rw [bound?_eq, hq]
      exact congrArg _ (funext fun table => hkeep table id' hne)
    · rfl
  kinds := rfl
  homes := tableHome?_modifyIdentities w p f fun table _ => hhere table
  registered := fun q id' b hb => by
    rw [bound?_modifyIdentities] at hb
    split_ifs at hb with hq
    · subst hq
      obtain ⟨table, ht, hb⟩ := Option.bind_eq_some_iff.mp hb
      rw [bound?_eq, ht, Option.bind_some]
      by_cases hid : id' = id
      · subst hid
        exact hget table b ht hb
      · exact .inl (hkeep table id' hid ▸ hb)
    · exact .inl hb

end Same

theorem same_unbind (w : World ν β) (hp : id.home ≠ p) (s : Serial) :
    Same w (w.unbind p id s) := by
  refine .modifyIdentities hp (fun table => ?_) (fun table => ?_) (fun table id' hne => ?_)
    fun table b _ hb => ?_
  · unfold Registry.removeIf
    split
    · split_ifs <;> rfl
    · rfl
  · unfold Registry.removeIf
    split
    · split_ifs <;> rfl
    · rfl
  · rw [Registry.get?_removeIf, if_neg fun h => hne h.1]
  · rw [Registry.get?_removeIf] at hb
    split_ifs at hb
    exact .inl hb

theorem same_submit (w : World ν β) (s : Serial) : Same w (w.submit s).2 := by
  cases hi : w.instance? s with
  | none =>
    rw [show w.submit s = (true, w) by simp [World.submit, hi]]
    exact .refl w
  | some i =>
    cases hr : i.remoteId? with
    | none =>
      rw [submit_home hi hr]
      exact .refl w
    | some id =>
      obtain ⟨hid, hp⟩ := Instance.remoteId?_eq_some.mp hr
      cases hb : i.bound with
      | true =>
        rw [submit_bound hi hr hb]
        exact .setInstance hi rfl rfl rfl
      | false =>
        cases hf : w.bound? i.place id with
        | some b =>
          rw [submit_refuses hi hr hb hf]
          exact .refl w
        | none =>
          rw [submit_rebinds hi hr hb hf]
          have hset : Same w (w.setInstance s
              { i with counters := i.counters.submitAway, bound := true }) :=
            .setInstance hi rfl rfl rfl
          refine hset.trans (Same.modifyIdentities (f := fun table => table.put id (.scope s)) hp
            (fun _ => rfl) (fun _ => rfl) (fun table id' hne => ?_)
            fun table b _ hg => .inr ⟨s, ?_, ?_, ?_⟩)
          · rw [Registry.get?_put, if_neg hne]
          · rw [Registry.get?_put, if_pos rfl] at hg
            exact (Option.some.inj hg).symm
          · rw [hset.ids, idOf?_eq hi, hid]
          · rw [hset.places, placeOf?_eq hi]

theorem same_takeExceptions (w : World ν β) (s : Serial) : Same w (w.takeExceptions s).2 := by
  unfold World.takeExceptions
  split
  · exact .refl w
  · rename_i i hi
    exact .setInstance hi rfl rfl rfl

variable [Network ν]

theorem same_spawn (w : World ν β) (s : Serial) (target : PlaceId) : Same w (w.spawn s target) := by
  unfold World.spawn
  split
  · exact .refl w
  · rename_i i hi
    split <;> exact .setInstance hi rfl rfl rfl

theorem same_unspawn (w : World ν β) (s : Serial) (target : PlaceId) :
    Same w (w.unspawn s target) := by
  unfold World.unspawn
  split
  · exact .refl w
  · rename_i i hi
    split <;> exact .setInstance hi rfl rfl rfl

theorem same_update (w : World ν β) (s : Serial) (deltas : List Int) :
    Same w (w.update s deltas) := by
  unfold World.update
  split
  · exact .refl w
  · rename_i i hi
    exact .setInstance hi rfl rfl rfl

theorem same_tell (w : World ν β) (s : Serial) : Same w (w.tell s) := by
  cases hi : w.instance? s with
  | none =>
    rw [show w.tell s = w by simp [World.tell, hi]]
    exact .refl w
  | some i =>
    cases hr : i.remoteId? with
    | none =>
      rw [tell_home hi hr]
      exact .setInstance hi rfl rfl rfl
    | some id =>
      rcases ht : i.counters.tellAway i.place w.known with ⟨_ | deltas, c⟩
      · rw [tell_away_quiet hi hr ht]
        exact .setInstance hi rfl rfl rfl
      · rw [tell_away_report hi hr ht, report_eq]
        have hset : Same w (w.setInstance s { i with counters := c, bound := false }) :=
          .setInstance hi rfl rfl rfl
        have hsent : Same w { w.setInstance s { i with counters := c, bound := false } with
            net := offer w.net ⟨i.place, id.home, .report id deltas⟩ } :=
          hset.trans (.of_tables rfl rfl)
        exact hsent.trans (same_unbind _ (Instance.remoteId?_eq_some.mp hr).2 s)

theorem same_addSuppressed (w : World ν β) (s : Serial) (f : Failure) :
    Same w (w.addSuppressed s f) := by
  cases hi : w.instance? s with
  | none =>
    rw [show w.addSuppressed s f = w by simp [World.addSuppressed, hi]]
    exact .refl w
  | some i =>
    have ha := alike_retain w s i f
    have hset : ∀ c e, Same w ((w.retain s i f).setInstance s { i with counters := c, exceptions := e }) :=
      fun c e => (Same.of_tables ha.instances ha.tables).trans
        (.setInstance (i := i) (by rw [ha.instance?, hi]) rfl rfl rfl)
    cases hr : i.remoteId? with
    | none =>
      rw [addSuppressed_home hi hr]
      exact hset _ _
    | some id =>
      cases hs : Network.send w.net ⟨i.place, id.home, .failure id f.encode⟩ with
      | ok net =>
        rw [addSuppressed_sent hi hr hs]
        exact (hset _ i.exceptions).trans (.of_tables rfl rfl)
      | error e =>
        rw [addSuppressed_refused hi hr hs]
        exact hset _ _

end World

end Quiescence
