/-
# What the operations are made of

* `amends_spawn`, `amends_submit`, `amends_tell`: an operation on one instance
  adds to what its scope is owed, or takes from it, at one place.
* `moved_prepareAll`, `moved_acceptAll`, `moved_spawnAt`, `moved_deliver`: the
  others are made of moves, where there is order.
* `Operates`, `Operated`: the operations, with nothing asked of those who use
  them, and all that they lead to.
* `Operated.orderly`: so there is order at all times.
-/
import Quiescence.Proofs.Growth
import Quiescence.Proofs.Orderly

namespace Quiescence

namespace World

variable {β : Type} {w w' : World Pairwise β} {g g' : Ledger β} {r s t : Serial}
  {i j : Instance} {p target : PlaceId} {id : GlobalId} {fs : List Serial} {tok : Token}
  {tokens : List Token} {v : ℕ → ℤ}

theorem Lasts.isRoot (h : Lasts w w') (hr : w.IsRoot r) : w'.IsRoot r := by
  obtain ⟨i, hi, hir⟩ := hr
  obtain ⟨j, hj, hjr, -⟩ := h.root hi hir
  exact ⟨j, hj, hjr⟩

/-! ### One instance -/

theorem amends_set (hi : w.instance? s = some i) (hp : j.place = i.place) (hid : j.id = i.id)
    (hhome : i.remoteId? = none → i.counters.Exact →
      j.counters.Exact ∧ j.counters.tally i.place = i.counters.tally i.place + v)
    (haway : ∀ id, i.remoteId? = some id →
      j.counters.unreported = i.counters.unreported + v) :
    Amends w (w.setInstance s j) s i j v [] where
  old := hi
  new := instance?_setInstance hi j
  place := hp
  id := hid
  home := hhome
  away := fun id hr => by rw [reportsOf_nil, totalDelta_nil, zero_add, haway id hr]
  packets := (List.append_nil _).symm
  sent := by simp
  next := rfl
  homes := rfl
  bound := fun _ _ _ hb => .inl hb

theorem amends_spawn (hi : w.instance? s = some i) (target : PlaceId) :
    ∃ j, Amends w (w.spawn s target) s i j (Pi.single target.index 1) [] := by
  cases hr : i.remoteId? with
  | none =>
    rw [spawn_home hi hr]
    refine ⟨_, amends_set hi rfl rfl (fun _ hx => ?_) fun id hr' => by rw [hr] at hr'; cases hr'⟩
    exact ⟨(Counters.spawnAtHome_spec hx _ _ _).1, Counters.tally_spawnAtHome hx _ _ _⟩
  | some id =>
    rw [spawn_away hi hr]
    exact ⟨_, amends_set hi rfl rfl (fun hr' => by rw [hr] at hr'; cases hr')
      fun _ _ => Counters.unreported_addAway _ _ _ _⟩

/-- A task accepted is counted away from home, and of no account: it was counted by its spawn. -/
theorem amends_submit (hi : w.instance? s = some i) : ∃ j, Amends w (w.submit s).2 s i j 0 [] := by
  have hsame : ∃ j, Amends w w s i j 0 [] :=
    ⟨i,
      { old := hi
        new := fun t => by split_ifs with ht <;> simp [ht, hi]
        place := rfl
        id := rfl
        home := fun _ hx => ⟨hx, (add_zero _).symm⟩
        away := fun _ _ => by simp
        packets := (List.append_nil _).symm
        sent := by simp
        next := rfl
        homes := rfl
        bound := fun _ _ _ hb => .inl hb }⟩
  cases hr : i.remoteId? with
  | none =>
    rw [submit_home hi hr]
    exact hsame
  | some id =>
    have hset : ∀ b, Amends w
        (w.setInstance s { i with counters := i.counters.submitAway, bound := b }) s i
        { i with counters := i.counters.submitAway, bound := b } 0 [] := fun b =>
      amends_set hi rfl rfl (fun hr' => by rw [hr] at hr'; cases hr') fun _ _ => (add_zero _).symm
    by_cases hb : i.bound = true
    · rw [submit_bound hi hr hb]
      exact ⟨_, hset i.bound⟩
    · rw [Bool.not_eq_true] at hb
      cases hf : w.bound? i.place id with
      | some b =>
        rw [submit_refuses hi hr hb hf]
        exact hsame
      | none =>
        rw [submit_rebinds hi hr hb hf]
        have ha := hset true
        refine ⟨_, { ha with next := ?_, homes := ?_, bound := fun q id' t hbt => ?_ }⟩
        · funext q
          unfold nextOf?
          rw [table?_modifyIdentities, table?_setInstance]
          split_ifs with hq
          · rw [hq, Option.map_map]
            rfl
          · rfl
        · exact tableHome?_modifyIdentities (w.setInstance s _) i.place _ fun _ _ => rfl
        · rw [bound?_modifyIdentities, bound?_setInstance, table?_setInstance] at hbt
          split_ifs at hbt with hq
          · obtain ⟨table, htable, hget⟩ := Option.bind_eq_some_iff.mp hbt
            rw [Registry.get?_put] at hget
            split_ifs at hget with hid
            · cases hget
              exact .inr ⟨rfl, hq, by rw [hid]; exact (Instance.remoteId?_eq_some.mp hr).1⟩
            · exact .inl (by rw [hq, bound?_eq, htable, Option.bind_some, hget])
          · exact .inl hbt

/-- A task ended is taken off at the place of the instance, now or with the report. A report that
cannot be sent takes all with it. -/
theorem amends_tell (hi : w.instance? s = some i) : ∃ j v sent, Amends w (w.tell s) s i j v sent ∧
    ((∀ id, i.remoteId? = some id → ¬ w.net.Refuses id.home) → v = Pi.single i.place.index (-1)) := by
  cases hr : i.remoteId? with
  | none =>
    rw [tell_home hi hr]
    refine ⟨_, Pi.single i.place.index (-1), [], amends_set hi rfl rfl (fun _ hx => ?_)
      (fun id hr' => ?_), fun _ => rfl⟩
    · exact ⟨(Counters.tellAtHome_spec hx _ _).1, Counters.tally_tellAtHome _ _ _⟩
    · rw [hr] at hr'
      cases hr'
  | some id =>
    have haway : i.remoteId? ≠ none := by rw [hr]; exact Option.some_ne_none _
    by_cases hc : i.counters.count = 1
    · obtain ⟨deltas, c, hd, hslot, -, hun⟩ := Counters.tellAway_report i.place w.known hc
      obtain ⟨hnet, hinst, hbound, hnext⟩ := tell_last hi hr hd
      have hhomes : (w.tell s).tableHome? = w.tableHome? := by
        rw [tell_away_report hi hr hd, report_eq]
        exact tableHome?_unbind ..
      have hkeep : ∀ q id t, (w.tell s).bound? q id = some (.scope t) →
          w.bound? q id = some (.scope t) := fun q id t hb => by
        rw [hbound] at hb
        split_ifs at hb
        exact hb
      by_cases hn : w.net.Refuses id.home
      · refine ⟨{ i with counters := c, bound := false }, -i.counters.unreported, [],
          { old := hi, new := hinst, place := rfl, id := rfl, next := hnext, homes := hhomes
            home := fun hr' => absurd hr' haway
            away := fun _ _ => by simp [hun]
            packets := by rw [hnet, offer_refused hn, List.append_nil]
            sent := by simp
            bound := fun q id t hb => .inl (hkeep q id t hb) }, fun hh => ?_⟩
        exact absurd hn (hh id rfl)
      · refine ⟨{ i with counters := c, bound := false }, Pi.single i.place.index (-1),
          [⟨i.place, id.home, .report id deltas⟩],
          { old := hi, new := hinst, place := rfl, id := rfl, next := hnext, homes := hhomes
            home := fun hr' => absurd hr' haway
            away := fun id' hr' => ?_
            packets := by rw [hnet, offer_accepted hn]
            sent := fun pk hpk => by
              rw [List.mem_singleton.mp hpk]
              exact ⟨id, hr, rfl, rfl⟩
            bound := fun q id t hb => .inl (hkeep q id t hb) }, fun _ => rfl⟩
        obtain rfl : id = id' := Option.some.inj (hr.symm.trans hr')
        simp [Message.deltas?, hun, hslot]
    · rw [tell_away_quiet hi hr (Counters.tellAway_quiet _ _ hc)]
      refine ⟨_, Pi.single i.place.index (-1), [], amends_set hi rfl rfl
        (fun hr' => absurd hr' haway) (fun _ _ => ?_), fun _ => rfl⟩
      exact Counters.unreported_addAway _ _ _ _

/-! ### Operations on one instance are moves -/

/-- Whatever becomes of the counters. -/
theorem moved_set (hi : w.instance? s = some i) (hp : j.place = i.place) (hid : j.id = i.id)
    (hx : i.remoteId? = none → i.counters.Exact → j.counters.Exact) :
    Moved w (w.setInstance s j) := by
  cases hr : i.remoteId? with
  | none =>
    exact (Moves.amends s i j (j.counters.tally i.place - i.counters.tally i.place) []
      (amends_set hi hp hid (fun hr' he => ⟨hx hr' he, (add_sub_cancel _ _).symm⟩)
        fun id hr' => by rw [hr] at hr'; cases hr')).moved
  | some id =>
    exact (Moves.amends s i j (j.counters.unreported - i.counters.unreported) []
      (amends_set hi hp hid (fun hr' => by rw [hr] at hr'; cases hr')
        fun _ _ => (add_sub_cancel _ _).symm)).moved

theorem moved_of_alike (h : Alike w w') : Moved w w' := (Moves.refits (refits_of_alike h)).moved

theorem moved_spawn (w : World Pairwise β) (s : Serial) (target : PlaceId) :
    Moved w (w.spawn s target) := by
  cases hi : w.instance? s with
  | none =>
    rw [show w.spawn s target = w by simp [World.spawn, hi]]
    exact .refl w
  | some i =>
    obtain ⟨j, ha⟩ := amends_spawn hi target
    exact (Moves.amends _ _ _ _ _ ha).moved

theorem moved_submit (w : World Pairwise β) (s : Serial) : Moved w (w.submit s).2 := by
  cases hi : w.instance? s with
  | none =>
    rw [show w.submit s = (true, w) by simp [World.submit, hi]]
    exact .refl w
  | some i =>
    obtain ⟨j, ha⟩ := amends_submit hi
    exact (Moves.amends _ _ _ _ _ ha).moved

theorem moved_tell (w : World Pairwise β) (s : Serial) : Moved w (w.tell s) := by
  cases hi : w.instance? s with
  | none =>
    rw [show w.tell s = w by simp [World.tell, hi]]
    exact .refl w
  | some i =>
    obtain ⟨j, v, sent, ha, -⟩ := amends_tell hi
    exact (Moves.amends _ _ _ _ _ ha).moved

theorem moved_unspawn (w : World Pairwise β) (s : Serial) (target : PlaceId) :
    Moved w (w.unspawn s target) := by
  cases hi : w.instance? s with
  | none =>
    rw [show w.unspawn s target = w by simp [World.unspawn, hi]]
    exact .refl w
  | some i =>
    cases hr : i.remoteId? with
    | some id =>
      rw [unspawn_away hi hr]
      exact moved_set hi rfl rfl fun hr' => by rw [hr] at hr'; cases hr'
    | none =>
      rw [unspawn_home hi hr]
      refine moved_set hi rfl rfl fun _ hx slots hs => ?_
      -- without slots there are none afterwards
      cases hslots : i.counters.slots with
      | none => simp [Instance.retire, Counters.unspawnAtHome, hslots] at hs
      | some _ =>
        exact (Counters.unspawnAtHome_spec hx i.place target w.known
          (.inr (by rw [hslots]; rfl))).1 slots hs

theorem moved_update (w : World Pairwise β) (s : Serial) (deltas : List Int) :
    Moved w (w.update s deltas) := by
  cases hi : w.instance? s with
  | none =>
    rw [show w.update s deltas = w by simp [World.update, hi]]
    exact .refl w
  | some i =>
    rw [update_eq hi]
    exact moved_set hi rfl rfl fun _ hx => (Counters.update_spec hx _ _ _).1

theorem moved_addSuppressed (w : World Pairwise β) (s : Serial) (f : Failure) :
    Moved w (w.addSuppressed s f) := by
  cases hi : w.instance? s with
  | none =>
    rw [show w.addSuppressed s f = w by simp [World.addSuppressed, hi]]
    exact .refl w
  | some i =>
    have ha := alike_retain w s i f
    have hi' : (w.retain s i f).instance? s = some i := by rw [ha.instance?, hi]
    have hset : ∀ j : Instance, j.place = i.place → j.id = i.id →
        (i.remoteId? = none → i.counters.Exact → j.counters.Exact) →
          Moved w ((w.retain s i f).setInstance s j) := fun j hp hid hx =>
      (moved_of_alike ha).trans (moved_set hi' hp hid hx)
    cases hr : i.remoteId? with
    | none =>
      rw [addSuppressed_home hi hr]
      exact hset _ rfl rfl fun _ hx => hx
    | some id =>
      by_cases hn : w.net.Refuses id.home
      · obtain ⟨e, he⟩ : ∃ e, Network.send w.net ⟨i.place, id.home, .failure id f.encode⟩ =
            .error e := Pairwise.send_refused hn
        rw [addSuppressed_refused hi hr he]
        exact hset _ rfl rfl fun hr' => by rw [hr] at hr'; cases hr'
      · rw [addSuppressed_sent hi hr (Pairwise.send_accepted hn)]
        have hm := hset { i with counters := i.counters.spawnAway id.home w.known } rfl rfl
          fun hr' => by rw [hr] at hr'; cases hr'
        refine hm.trans (Moves.refits (refits_net _ fun pk hpk => ?_)).moved
        rcases List.mem_append.mp hpk with hpk | hpk
        · exact .inl (by rw [net_setInstance, ha.net]; exact hpk)
        · rw [List.mem_singleton.mp hpk]
          refine .inr ⟨fun id' hid' => hm.lasts.inUse ⟨s, ?_⟩, fun id' hid' => ?_⟩
          · rw [idOf?_eq hi, (Instance.remoteId?_eq_some.mp hr).1]
            exact congrArg some hid'
          · cases hid'
            rfl

/-- A registry gives up bindings of scopes, and binds no other. -/
theorem moved_modifyIdentities {f : Registry Binding → Registry Binding}
    (hhere : ∀ table, w.table? p = some table → (f table).here = table.here)
    (hnext : ∀ table, w.table? p = some table → table.next.toNat ≤ (f table).next.toNat)
    (hget : ∀ table, w.table? p = some table → ∀ id t, (f table).get? id = some (.scope t) →
      table.get? id = some (.scope t)) : Moved w (w.modifyIdentities p f) := by
  suffices hf : Refits w (w.modifyIdentities p f) from (Moves.refits hf).moved
  refine ⟨rfl, fun pk hpk => .inl hpk, fun q n hn => ?_, tableHome?_modifyIdentities w p f hhere,
    fun q id t hb => ?_⟩
  · unfold nextOf? at hn ⊢
    rw [table?_modifyIdentities]
    split_ifs with hq
    · obtain ⟨table, htable, rfl⟩ := Option.map_eq_some_iff.mp hn
      rw [hq] at htable
      exact ⟨_, by rw [htable]; rfl, hnext table htable⟩
    · exact ⟨n, hn, le_rfl⟩
  · rw [bound?_modifyIdentities] at hb
    split_ifs at hb with hq
    · obtain ⟨table, htable, hb⟩ := Option.bind_eq_some_iff.mp hb
      rw [hq, bound?_eq, htable]
      exact hget table htable id t hb
    · exact hb

theorem moved_exit (w : World Pairwise β) (s : Serial) : Moved w (w.exit s) := by
  unfold World.exit
  split
  · exact .refl w
  · rename_i i _
    split
    · exact .refl w
    · refine moved_modifyIdentities (fun table _ => ?_) (fun table _ => ?_)
        fun table _ id t hb => ?_
      · unfold Registry.removeIf
        split
        · split_ifs <;> rfl
        · rfl
      · unfold Registry.removeIf
        split
        · split_ifs <;> exact le_rfl
        · exact le_rfl
      · rw [Registry.get?_removeIf] at hb
        split_ifs at hb
        exact hb

theorem moved_takeExceptions (w : World Pairwise β) (s : Serial) :
    Moved w (w.takeExceptions s).2 := by
  cases hi : w.instance? s with
  | none =>
    rw [show w.takeExceptions s = ([], w) by simp [World.takeExceptions, hi]]
    exact .refl w
  | some i =>
    rw [takeExceptions_eq hi]
    exact moved_set hi rfl rfl fun _ hx => hx

theorem moved_leave (w : World Pairwise β) (s : Serial) : Moved w (w.leave s).2 :=
  (moved_exit w s).trans (moved_takeExceptions (w.exit s) s)

theorem moved_bindForeign (w : World Pairwise β) (p : PlaceId) (id : GlobalId) :
    Moved w (w.bindForeign p id).2 := by
  suffices h : Moved w (w.modifyIdentities p fun table => table.put id .foreign) from h
  refine moved_modifyIdentities (fun _ _ => rfl) (fun _ _ => le_rfl) fun table _ id' t hb => ?_
  rw [Registry.get?_put] at hb
  split_ifs at hb
  · cases hb
  · exact hb

theorem moved_forget (w : World Pairwise β) (p : PlaceId) (id : GlobalId) :
    Moved w (w.forget p id).2 := by
  suffices h : Moved w (w.modifyIdentities p fun table => table.erase id) from h
  refine moved_modifyIdentities (fun _ _ => rfl) (fun _ _ => le_rfl) fun table _ id' t hb => ?_
  rw [Registry.get?_erase] at hb
  split_ifs at hb
  exact hb

theorem moved_allocate (h : w.allocate p = .ok (id, w')) : Moved w w' := by
  unfold World.allocate at h
  split at h
  · cases h
  · rename_i site hs
    split at h
    · cases h
    · rename_i id' table hal
      cases h
      have htable : w.table? p = some site.identities := by simp [table?, hs]
      obtain ⟨-, -, rfl⟩ := allocate_home hal
      have hlt : site.identities.next.toNat + 1 < UInt32.size := by
        unfold Registry.allocate at hal
        split_ifs at hal with hlt
        exact hlt
      refine moved_modifyIdentities (fun table ht => ?_) (fun table ht => ?_)
        fun table ht id' t hb => ?_
      all_goals obtain rfl : site.identities = table := Option.some.inj (htable.symm.trans ht)
      · rfl
      · rw [toNat_succ_of_lt hlt]
        exact Nat.le_succ _
      · exact hb

theorem moved_openScope (hp : w.Built p) (kind : ScopeKind) : Moved w (w.openScope p kind).2 :=
  (Moves.opens _
    { toAdds := adds_addInstance w _
      id := rfl
      exact := (Counters.spawnAtHome_spec Counters.exact_zero _ _ _).1
      built := hp
      bound := rfl }).moved

/-! ### Tasks of several scopes -/

theorem moved_spawnAll (w : World Pairwise β) (fs : List Serial) (target : PlaceId) :
    Moved w (w.spawnAll fs target) :=
  List.foldlRecOn fs _ (.refl w) fun w₁ h s _ => h.trans (moved_spawn w₁ s target)

theorem moved_unspawnAll (w : World Pairwise β) (fs : List Serial) (target : PlaceId) :
    Moved w (w.unspawnAll fs target) :=
  List.foldlRecOn fs _ (.refl w) fun w₁ h s _ => h.trans (moved_unspawn w₁ s target)

theorem moved_submitAll (w : World Pairwise β) (fs : List Serial) : Moved w (w.submitAll fs) :=
  List.foldlRecOn fs _ (.refl w) fun w₁ h s _ => h.trans (moved_submit w₁ s)

theorem moved_tellAll (w : World Pairwise β) (fs : List Serial) : Moved w (w.tellAll fs) :=
  List.foldlRecOn fs _ (.refl w) fun w₁ h s _ => h.trans (moved_tell w₁ s)

/-- The token that is given names the scope. -/
theorem moved_prepareTransfer (h : Orderly w) (s : Serial) : Moved w (w.prepareTransfer s).2 ∧
    ∀ tok, (w.prepareTransfer s).1 = .ok tok →
      (w.prepareTransfer s).2.idOf? s = some tok.id := by
  cases hi : w.instance? s with
  | none =>
    rw [show w.prepareTransfer s = (.error (.allocate (.unknown default w.known)), w) by
      simp [World.prepareTransfer, hi]]
    exact ⟨.refl w, fun tok ht => by cases ht⟩
  | some i =>
    cases hid : i.id with
    | some id =>
      rw [prepareTransfer_known hi hid]
      refine ⟨.refl w, fun tok ht => ?_⟩
      cases ht
      rw [idOf?_eq hi, hid]
    | none =>
      rcases prepareTransfer_cases (h.built s i hi) h.allocated hi hid with ⟨e, he⟩ | ⟨id, hok, hc⟩
      · rw [he]
        exact ⟨.refl w, fun tok ht => by cases ht⟩
      · refine ⟨(Moves.roots s i id hc).moved, fun tok ht => ?_⟩
        rw [hok] at ht
        cases ht
        rw [hc.idOf?, if_pos rfl]

theorem moved_prepareAll (h : Orderly w) (fs : List Serial) : Moved w (w.prepareAll fs).2 ∧
    ∀ tokens, (w.prepareAll fs).1 = .ok tokens → Tokened (w.prepareAll fs).2 fs tokens := by
  induction fs generalizing w with
  | nil =>
    refine ⟨.refl w, fun tokens ht => ?_⟩
    cases ht
    exact .nil
  | cons s fs ih =>
    obtain ⟨h1, h2⟩ := moved_prepareTransfer h s
    obtain ⟨h3, h4⟩ := ih (h1.orderly h)
    simp only [World.prepareAll]
    rcases hw : w.prepareTransfer s with ⟨_ | tok, w₁⟩ <;> rw [hw] at h1 h2 h3 h4
    · exact ⟨h1, fun tokens ht => by cases ht⟩
    · simp only at h1 h2 h3 h4 ⊢
      rcases hw' : w₁.prepareAll fs with ⟨_ | ts, w₂⟩ <;> rw [hw'] at h3 h4
      · exact ⟨h1.trans h3, fun tokens ht => by cases ht⟩
      · refine ⟨h1.trans h3, fun tokens ht => ?_⟩
        cases ht
        exact .cons (h3.lasts.idOf? (h2 tok rfl)) (h4 ts rfl)

theorem Tokened.lasts (h : Tokened w fs tokens) (hl : Lasts w w') : Tokened w' fs tokens :=
  List.Forall₂.imp (fun _ _ ht => hl.idOf? ht) h

theorem Tokened.inUse (h : Tokened w fs tokens) : ∀ tok ∈ tokens, w.InUse tok.id :=
  fun _ ht => (h.exists_of_mem ht).imp fun _ hs => hs.2

theorem moved_spawnHere (w : World Pairwise β) (task : Task β) (p : PlaceId) :
    Moved w (w.spawnHere task p) :=
  ((moved_spawnAll w task.finishes p).trans (moved_submitAll _ task.finishes)).trans
    (moved_of_alike (alike_enqueue _ _))

/-- A task is sent in a message, with the tokens it carries. -/
theorem moved_send (ht : ∀ tok ∈ tokens, w.InUse tok.id) {sender : PlaceId} {body : β}
    (hs : w.send sender target (.handOff tokens body) = .ok w') : Moved w w' ∧
      w' = w.withPackets (w.net.packets ++ [⟨sender, target, .handOff tokens body⟩]) := by
  unfold World.send at hs
  by_cases hn : w.net.Refuses target
  · obtain ⟨e, he⟩ : ∃ e, Network.send w.net ⟨sender, target, .handOff tokens body⟩ = .error e :=
      Pairwise.send_refused hn
    rw [he] at hs
    cases hs
  · have he : Network.send w.net ⟨sender, target, .handOff tokens body⟩ = .ok _ :=
      Pairwise.send_accepted hn
    rw [he] at hs
    cases hs
    refine ⟨(Moves.refits (refits_net _ fun pk hpk => ?_)).moved, rfl⟩
    rcases List.mem_append.mp hpk with hpk | hpk
    · exact .inl hpk
    · rw [List.mem_singleton.mp hpk]
      refine .inr ⟨fun id hid => ?_, nofun⟩
      obtain ⟨tok, htok, rfl⟩ := hid
      exact ht tok htok

theorem moved_spawnAt (h : Orderly w) (task : Task β) (p target : PlaceId) :
    Moved w (w.spawnAt task p target).2 := by
  unfold World.spawnAt
  split_ifs
  · exact moved_spawnHere w task p
  · obtain ⟨h1, h2⟩ := moved_prepareAll h task.finishes
    rcases hw : w.prepareAll task.finishes with ⟨_ | tokens, w₁⟩ <;> rw [hw] at h1 h2
    · exact h1
    · have h3 := moved_spawnAll w₁ task.finishes target
      simp only
      rcases hs : (w₁.spawnAll task.finishes target).send p target
        (.handOff tokens task.body) with e | w₂
      · exact (h1.trans h3).trans (moved_unspawnAll _ _ _)
      · exact (h1.trans h3).trans (moved_send ((h2 tokens rfl).lasts h3.lasts).inUse hs).1

/-! ### What a spawn leaves alone -/

theorem Orderly.grows_prepareTransfer (h : Orderly w) (s : Serial) :
    Grows w (w.prepareTransfer s).2 := by
  cases hi : w.instance? s with
  | none =>
    rw [show w.prepareTransfer s = (.error (.allocate (.unknown default w.known)), w) by
      simp [World.prepareTransfer, hi]]
    exact .refl w
  | some i =>
    cases hid : i.id with
    | some id =>
      rw [prepareTransfer_known hi hid]
      exact .refl w
    | none =>
      rcases prepareTransfer_cases (h.built s i hi) h.allocated hi hid with ⟨e, he⟩ | ⟨id, -, hc⟩
      · rw [he]
        exact .refl w
      · refine ⟨fun t x hx => ?_, fun t x hx hx' => ?_⟩
        · by_cases hts : t = s
          · subst hts
            obtain rfl : i = x := Option.some.inj (hi.symm.trans hx)
            exact ⟨{ i with id := some id }, by rw [hc.new, if_pos rfl], rfl, rfl,
              .inr ⟨hid, id, rfl, hc.home⟩⟩
          · exact ⟨x, by rw [hc.new, if_neg hts, hx], rfl, rfl, .inl rfl⟩
        · rw [hc.new] at hx'
          split_ifs at hx' with hts
          · rw [hts, hi] at hx
            cases hx
          · rw [hx] at hx'
            cases hx'

theorem Orderly.grows_prepareAll (h : Orderly w) (fs : List Serial) :
    Grows w (w.prepareAll fs).2 := by
  induction fs generalizing w with
  | nil => exact .refl w
  | cons s fs ih =>
    have h0 := h.grows_prepareTransfer s
    have h1 := ih ((moved_prepareTransfer h s).1.orderly h)
    simp only [World.prepareAll]
    rcases hr : w.prepareTransfer s with ⟨_ | tok, w₁⟩ <;> rw [hr] at h0 h1
    · exact h0
    · have h2 := h0.trans h1
      simp only
      rcases hr' : w₁.prepareAll fs with ⟨_ | ts, w₂⟩ <;> rw [hr'] at h2 <;> exact h2

theorem Orderly.grows_spawnAt (h : Orderly w) (task : Task β) (p target : PlaceId) :
    Grows w (w.spawnAt task p target).2 := by
  unfold World.spawnAt
  split_ifs
  · exact grows_spawnHere w task p
  · have h0 := h.grows_prepareAll task.finishes
    rcases hr : w.prepareAll task.finishes with ⟨_ | tokens, w₁⟩ <;> rw [hr] at h0
    · exact h0
    · have h1 := h0.trans (grows_spawnAll w₁ task.finishes target)
      simp only [World.send]
      cases Network.send (w₁.spawnAll task.finishes target).net
          ⟨p, target, Message.handOff tokens task.body⟩ with
      | ok net => exact h1.trans (.of_instances rfl)
      | error e => exact h1.trans (grows_unspawnAll _ _ _)

/-! ### Arrivals -/

theorem moved_resolve (hp : w.Built p) (ht : w.InUse tok.id) : Moved w (w.resolve tok p).2 := by
  rcases resolve_cases hp tok with ⟨e, he⟩ | ⟨s, hs, -⟩ | ⟨w', j, hw, -, ha⟩
  · rw [he]
    exact .refl w
  · rw [hs]
    exact .refl w
  · rw [hw]
    exact (Moves.settles tok p j ha ht hp).moved

theorem moved_accept (hp : w.Built p) (ht : w.InUse tok.id) : Moved w (w.accept tok p).2 := by
  have h1 := moved_resolve hp ht
  unfold World.accept
  rcases hw : w.resolve tok p with ⟨_ | s, w₁⟩ <;> rw [hw] at h1
  · exact h1
  · exact h1.trans (moved_submit w₁ s)

theorem moved_acceptAll (hp : w.Built p) (ht : ∀ tok ∈ tokens, w.InUse tok.id) :
    Moved w (w.acceptAll p tokens).2 := by
  induction tokens generalizing w with
  | nil => exact .refl w
  | cons tok tokens ih =>
    have h1 := moved_accept hp (ht tok (List.mem_cons_self ..))
    simp only [World.acceptAll]
    rcases hw : w.accept tok p with ⟨_ | s, w₁⟩ <;> rw [hw] at h1
    · exact h1
    · exact h1.trans (ih (h1.lasts.built hp) fun t hm =>
        h1.lasts.inUse (ht t (List.mem_cons_of_mem _ hm)))

theorem moved_receiveTask (hp : w.Built p) (ht : ∀ tok ∈ tokens, w.InUse tok.id) (body : β) :
    Moved w (w.receiveTask p tokens body) := by
  have h1 := moved_acceptAll hp ht
  unfold World.receiveTask
  rcases hw : w.acceptAll p tokens with ⟨⟨accepted, all⟩, w₁⟩
  rw [hw] at h1
  cases all with
  | true => exact h1.trans (moved_of_alike (alike_enqueue _ _))
  | false => exact h1.trans (moved_tellAll w₁ accepted)

theorem moved_receiveReport (w : World Pairwise β) (p : PlaceId) (id : GlobalId)
    (deltas : List Int) : Moved w (w.receiveReport p id deltas) := by
  unfold World.receiveReport
  split
  · exact .refl w
  · exact moved_update w _ deltas

theorem moved_deliverFailure (w : World Pairwise β) (p : PlaceId) (id : GlobalId)
    (payload : Wire.Bytes) : Moved w (w.deliverFailure p id payload) := by
  unfold World.deliverFailure
  split
  · exact .refl w
  · exact ((moved_submit w _).trans (moved_addSuppressed _ _ _)).trans (moved_tell _ _)

theorem moved_receive (h : Orderly w) {m : Message β} (hm : ∀ id, m.Concerns id → w.InUse id) :
    Moved w (w.receive p m) := by
  unfold World.receive
  split
  · exact .refl w
  · rename_i site hs
    refine Moved.trans ?_ (moved_of_alike (alike_modifySite _ _ _ fun _ => rfl))
    cases m with
    | handOff tokens body =>
      exact moved_receiveTask (h.built_of_site hs) (fun tok ht => hm _ ⟨tok, ht, rfl⟩) body
    | report id deltas => exact moved_receiveReport w p id deltas
    | failure id payload => exact moved_deliverFailure w p id payload

/-- A packet is taken off its lane; it is about identities in use. -/
theorem moved_take (h : Orderly w) {lane : Lane} {pk : Packet (Message β)}
    {net : Pairwise (Message β)} (ht : Network.take w.net lane = some (pk, net)) :
    Moved w { w with net } ∧ ({ w with net } : World Pairwise β).Posted pk := by
  obtain ⟨before, after, hp, rfl, -⟩ := Pairwise.take_split ht
  refine ⟨(Moves.refits (refits_net _ fun q hq => .inl ?_)).moved, h.posted pk (by rw [hp]; simp)⟩
  rw [hp]
  rcases List.mem_append.mp hq with hq | hq <;> simp [hq]

theorem moved_deliver (h : Orderly w) {lane : Lane} (hw : w.deliver lane = some w') :
    Moved w w' := by
  unfold World.deliver at hw
  split at hw
  · cases hw
  · rename_i pk net ht
    cases hw
    obtain ⟨h1, h2⟩ := moved_take h ht
    exact h1.trans (moved_receive (h1.orderly h) h2.1)

/-- What accepts a task at a place is there. -/
theorem placed_resolve (h : Orderly w) (hp : w.Built p) (hs : (w.resolve tok p).1 = .ok s) :
    (w.resolve tok p).2.placeOf? s = some p := by
  rcases resolve_cases hp tok with ⟨e, he⟩ | ⟨t, ht, hb⟩ | ⟨w', j, hw, -, ha⟩
  · rw [he] at hs
    cases hs
  · rw [ht] at hs ⊢
    cases hs
    obtain ⟨i, hi, hip, -⟩ := h.registered p tok.id s hb
    rw [placeOf?_eq hi, hip]
  · rw [hw] at hs ⊢
    cases hs
    have hj : w'.instance? w.instances.length = some j := by rw [ha.new, if_pos rfl]
    rw [placeOf?_eq hj, ha.place]

theorem placed_acceptAll (h : Orderly w) (hp : w.Built p) (ht : ∀ tok ∈ tokens, w.InUse tok.id) :
    ∀ s ∈ (w.acceptAll p tokens).1.1, (w.acceptAll p tokens).2.placeOf? s = some p := by
  induction tokens generalizing w with
  | nil => exact List.forall_mem_nil _
  | cons tok tokens ih =>
    have h1 := moved_accept hp (ht tok (List.mem_cons_self ..))
    have hrest : ∀ t ∈ tokens, (w.accept tok p).2.InUse t.id := fun t hm =>
      h1.lasts.inUse (ht t (List.mem_cons_of_mem _ hm))
    have h2 := moved_acceptAll (h1.lasts.built hp) hrest
    have ih := ih (h1.orderly h) (h1.lasts.built hp) hrest
    have hplaced : ∀ s, (w.accept tok p).1 = .ok s → (w.accept tok p).2.placeOf? s = some p := by
      intro s hs
      have hres : (w.resolve tok p).1 = .ok s → _ := placed_resolve h hp
      unfold World.accept at hs ⊢
      rcases hw : w.resolve tok p with ⟨_ | t, w₁⟩ <;> rw [hw] at hs hres
      · cases hs
      · cases hs
        exact (moved_submit w₁ s).lasts.placeOf? (hres rfl)
    simp only [World.acceptAll]
    rcases hw : w.accept tok p with ⟨_ | s, w₁⟩ <;> rw [hw] at h2 ih hplaced
    · exact List.forall_mem_nil _
    · exact List.forall_mem_cons.mpr ⟨h2.lasts.placeOf? (hplaced s rfl), ih⟩

/-- A delivery hands over the task that has arrived, if it is one. -/
theorem jobs_deliver (h : Orderly w) {lane : Lane} (hw : w.deliver lane = some w') :
    ∃ new, w'.jobs = w.jobs ++ new ∧ ∀ job ∈ new, ∀ s ∈ job.finishes, w'.placeOf? s = some job.place := by
  unfold World.deliver at hw
  split at hw
  · cases hw
  · rename_i pk net ht
    cases hw
    obtain ⟨h1, h2, -⟩ := moved_take h ht
    have ho := h1.orderly h
    have hnone : ∀ {w₁ : World Pairwise β}, w₁.jobs = w.jobs → ∃ new, w₁.jobs = w.jobs ++ new ∧
        ∀ job ∈ new, ∀ s ∈ job.finishes, w₁.placeOf? s = some job.place := fun hj =>
      ⟨[], hj.trans (List.append_nil _).symm, List.forall_mem_nil _⟩
    unfold World.receive
    split
    · exact hnone rfl
    · rename_i site hs
      cases hm : pk.content with
      | handOff tokens body =>
        have hu : ∀ tok ∈ tokens, ({ w with net } : World Pairwise β).InUse tok.id := fun tok hx =>
          h2 tok.id (by rw [hm]; exact ⟨tok, hx, rfl⟩)
        have hplaced := placed_acceptAll ho (ho.built_of_site hs) hu
        have hj := (still_acceptAll ({ w with net } : World Pairwise β) pk.dest tokens).jobs
        simp only [World.receiveTask]
        rcases ha : ({ w with net } : World Pairwise β).acceptAll pk.dest tokens with
          ⟨⟨accepted, _ | _⟩, w₁⟩ <;> rw [ha] at hplaced hj
        · exact hnone ((jobs_tellAll w₁ accepted).trans hj)
        · refine ⟨[⟨pk.dest, accepted, body⟩], congrArg (· ++ _) hj, fun job hjob s hx => ?_⟩
          rw [List.mem_singleton.mp hjob] at hx ⊢
          exact hplaced s hx
      | report id deltas => exact hnone (still_receiveReport _ pk.dest id deltas).jobs
      | failure id payload => exact hnone (ground_deliverFailure _ pk.dest id payload).2

/-! ### All operations -/

/-- An operation, with nothing asked of those who use it. -/
inductive Operates (w : World Pairwise β) : World Pairwise β → Prop where
  | openScope (p : PlaceId) (kind : ScopeKind) : w.Built p → Operates w (w.openScope p kind).2
  | spawn (s : Serial) (target : PlaceId) : Operates w (w.spawn s target)
  | unspawn (s : Serial) (target : PlaceId) : Operates w (w.unspawn s target)
  | submit (s : Serial) : Operates w (w.submit s).2
  | tell (s : Serial) : Operates w (w.tell s)
  | fail (s : Serial) (f : Failure) : Operates w (w.addSuppressed s f)
  | prepareTransfer (s : Serial) : Operates w (w.prepareTransfer s).2
  /-- Tokens are those that instances give. -/
  | accept (tok : Token) (p : PlaceId) : w.InUse tok.id → w.Built p → Operates w (w.accept tok p).2
  | exit (s : Serial) : Operates w (w.exit s)
  | takeExceptions (s : Serial) : Operates w (w.takeExceptions s).2
  | spawnAt (task : Task β) (p target : PlaceId) : Operates w (w.spawnAt task p target).2
  | deliver (lane : Lane) (w' : World Pairwise β) : w.deliver lane = some w' → Operates w w'
  | leave (s : Serial) : Operates w (w.leave s).2
  /-- A place binds an identity to something that is no scope, or unbinds it. -/
  | bindForeign (p : PlaceId) (id : GlobalId) : Operates w (w.bindForeign p id).2
  | forget (p : PlaceId) (id : GlobalId) : Operates w (w.forget p id).2
  | allocate (p : PlaceId) (id : GlobalId) (w' : World Pairwise β) :
      w.allocate p = .ok (id, w') → Operates w w'
  | kill (p : PlaceId) (w' : World Pairwise β) : w.kill p = .ok w' → Operates w w'
  | resize (known : ℕ) : Operates w (w.resize known)
  /-- Workers and diagnostics do what they like. -/
  | elsewhere (w' : World Pairwise β) : Alike w w' → Operates w w'

/-- Any number of operations. -/
abbrev Operations : World Pairwise β → World Pairwise β → Prop := Relation.ReflTransGen Operates

/-- What operations lead to, from places where nothing goes on. -/
inductive Operated : World Pairwise β → Prop where
  | start (net : Pairwise (Message β)) (places : ℕ) (kind : ScopeKind) (spins : ℕ) :
      net.packets = [] → places ≤ UInt32.size → Operated (start net places kind spins)
  | operates {w w' : World Pairwise β} : Operated w → Operates w w' → Operated w'

theorem Operates.moved (h : Operates w w') (ho : Orderly w) : Moved w w' := by
  cases h with
  | openScope p kind hp => exact moved_openScope hp kind
  | spawn s target => exact moved_spawn w s target
  | unspawn s target => exact moved_unspawn w s target
  | submit s => exact moved_submit w s
  | tell s => exact moved_tell w s
  | fail s f => exact moved_addSuppressed w s f
  | prepareTransfer s => exact (moved_prepareTransfer ho s).1
  | accept tok p ht hp => exact moved_accept hp ht
  | exit s => exact moved_exit w s
  | takeExceptions s => exact moved_takeExceptions w s
  | spawnAt task p target => exact moved_spawnAt ho task p target
  | deliver lane _ hw => exact moved_deliver ho hw
  | leave s => exact moved_leave w s
  | bindForeign p id => exact moved_bindForeign w p id
  | forget p id => exact moved_forget w p id
  | allocate p id _ ha => exact moved_allocate ha
  | kill p _ hw =>
    cases hw
    exact (Moves.refits (refits_net (w.net.kill p) fun pk hpk => .inl hpk)).moved
  | resize known =>
    exact (Moves.refits (refits_net { w.net with known } fun pk hpk => .inl hpk)).moved
  | elsewhere _ ha => exact moved_of_alike ha

theorem Operations.moved (h : Operations w w') (ho : Orderly w) : Moved w w' := by
  induction h with
  | refl => exact .refl w
  | tail _ hs ih => exact ih.trans (hs.moved (ih.orderly ho))

theorem Operated.orderly (h : Operated w) : Orderly w := by
  induction h with
  | start net places kind spins hn hp => exact (consistent_start hn hp kind spins).orderly
  | operates _ hs ih => exact (hs.moved ih).orderly ih

/-- Steps of runs are operations. -/
theorem Step.operates (h : Step w g w' g') : Operates w w' := by
  cases h with
  | openScope p kind hp => exact .openScope p kind hp
  | spawn task p target _ => exact .spawnAt task p target
  | fail s f _ => exact .fail s f
  | tell s _ => exact .tell s
  | deliver lane _ hw => exact .deliver lane _ hw
  | leave r _ _ _ _ => exact .leave r
  | kill p _ hw => exact .kill p _ hw
  | resize known _ => exact .resize known
  | elsewhere _ ha => exact .elsewhere _ ha

end World

end Quiescence
