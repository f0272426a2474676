/-
# Failures reach the root, once and in order

A failure reported at home is kept by the root. One reported elsewhere is in a
message from then on, and is kept by the root when the message has arrived. The
messages from one place arrive in order, and what could not be sent comes after
all of them: from then on everything was refused. So for each place, what the
root has kept and what the messages carry is, in this order, what was reported
there (`Faithful.passed`).

A failure that could not be sent is owed to the root for ever: so is the report
of the episode it belongs to (`Faithful.owed`), and without that report the root
is not released.
-/
import Quiescence.Proofs.Operations

namespace Quiescence

/-- A failure as the home place of its scope reads it. -/
def Failure.relayed (home : PlaceId) (f : Failure) : Failure := .ofDecoded (Failure.decode f.encode) home

namespace World

variable {β : Type} {w w' : World Pairwise β} {g g' : Ledger β} {r s : Serial} {i j : Instance}
  {p q : PlaceId} {id : GlobalId} {pk : Packet (Message β)}

/-! ### Failures on their way -/

/-- The failure that a message carries for a scope from a place, as it will be read. -/
def failureFrom? (id : GlobalId) (p : PlaceId) (pk : Packet (Message β)) : Option Failure :=
  match pk.content with
  | .failure id' payload =>
    if id' = id ∧ pk.sender = p then some (.ofDecoded (Failure.decode payload) pk.dest) else none
  | _ => none

def failuresFrom (id : GlobalId) (p : PlaceId) (pks : List (Packet (Message β))) : List Failure :=
  pks.filterMap (failureFrom? id p)

@[simp] theorem failuresFrom_nil (id : GlobalId) (p : PlaceId) :
    failuresFrom id p ([] : List (Packet (Message β))) = [] := rfl

@[simp] theorem failuresFrom_append (id : GlobalId) (p : PlaceId) (a b : List (Packet (Message β))) :
    failuresFrom id p (a ++ b) = failuresFrom id p a ++ failuresFrom id p b := List.filterMap_append ..

@[simp] theorem failuresFrom_cons (id : GlobalId) (p : PlaceId) (pk : Packet (Message β))
    (pks : List (Packet (Message β))) :
    failuresFrom id p (pk :: pks) = (failureFrom? id p pk).toList ++ failuresFrom id p pks := by
  unfold failuresFrom
  rw [List.filterMap_cons]
  cases failureFrom? id p pk <;> rfl

/-- The failures that instances of a scope at `q` have been told of from `p`, oldest first. -/
def entriesAt (w : World Pairwise β) (g : Ledger β) (id : GlobalId) (q p : PlaceId) : List Failure :=
  (g.reported.filter fun e =>
    w.idOf? e.scope = some id ∧ w.placeOf? e.scope = some q ∧ e.place = p).map (·.failure)

/-! ### The invariant -/

/-- A failure that could not be sent belongs to an episode whose report could not be sent either, or
has not ended. -/
def Owed (w : World Pairwise β) (g : Ledger β) : Prop :=
  ∀ pk ∈ g.lost, ∀ id payload, pk.content = .failure id payload →
    (∃ q ∈ g.lost, q.sender = pk.sender ∧ ∃ deltas, q.content = .report id deltas) ∨
      ∃ s ∈ g.held, w.idOf? s = some id ∧ w.placeOf? s = some pk.sender

structure Faithful (w : World Pairwise β) (g : Ledger β) : Prop where
  /-- A root keeps what was reported to it. -/
  kept : ∀ r i, w.instance? r = some i → i.remoteId? = none → r ∉ g.left →
    i.exceptions = (g.reported.filter (·.scope = r)).map (·.failure)
  /-- What was reported at another place was passed on. -/
  passed : ∀ id p, p ≠ id.home →
    w.entriesAt g id id.home p ++ failuresFrom id p (w.net.packets ++ g.lost) =
      (w.entriesAt g id p p).map (Failure.relayed id.home)
  /-- Reports are made at the place, or arrive at the root. -/
  placed : ∀ e ∈ g.reported, w.placeOf? e.scope = some e.place ∨
    ∃ id, w.idOf? e.scope = some id ∧ w.placeOf? e.scope = some id.home
  owed : Owed w g

theorem faithful_start (net : Pairwise (Message β)) (hn : net.packets = []) (places : ℕ)
    (kind : ScopeKind) (spins : ℕ) : Faithful (start net places kind spins) Ledger.empty := by
  refine ⟨fun r i hi => ?_, fun id p _ => ?_, by simp [Ledger.empty], by simp [Owed, Ledger.empty]⟩
  · simp [start, instance?] at hi
  · simp [start, hn, Ledger.empty, entriesAt]

theorem Owed.mono (h : Owed w g) (hg : Grows w w') (hlost : ∀ pk ∈ g.lost, pk ∈ g'.lost)
    (hheld : ∀ s ∈ g.held, s ∈ g'.held)
    (hnew : ∀ pk ∈ g'.lost, pk ∈ g.lost ∨ ∀ id payload, pk.content ≠ .failure id payload) :
    Owed w' g' := by
  intro pk hpk id payload hc
  rcases hnew pk hpk with hm | hne
  · rcases h pk hm id payload hc with ⟨q, hq, hq'⟩ | ⟨s, hs, hid, hp⟩
    · exact .inl ⟨q, hlost q hq, hq'⟩
    · exact .inr ⟨s, hheld s hs, hg.idOf? hid, hg.placeOf? hp⟩
  · exact absurd hc (hne id payload)

/-- The entries about another place are those of the same instances as before: an identity that is
new is homed where its instance is. -/
theorem entriesAt_grows (h : Faithful w g) (hg : Grows w w') (hrep : g'.reported = g.reported)
    (hp : p ≠ id.home) (q : PlaceId) : w'.entriesAt g' id q p = w.entriesAt g id q p := by
  unfold entriesAt
  rw [hrep]
  congr 1
  refine List.filter_congr fun e he => ?_
  rw [decide_eq_decide]
  have hsome : ∃ x, w.placeOf? e.scope = some x := by
    rcases h.placed e he with hx | ⟨_, -, hx⟩ <;> exact ⟨_, hx⟩
  obtain ⟨x, hx⟩ := hsome
  have hx' := hg.placeOf? hx
  rw [hx, hx']
  refine and_congr_left fun ⟨_, hep⟩ => ⟨fun hid' => ?_, hg.idOf?⟩
  by_contra hid
  have hi : (w.instance? e.scope).isSome := by
    obtain ⟨i, hi, -⟩ := Option.map_eq_some_iff.mp hx
    rw [hi]
    rfl
  have hhome := hg.home hi hid hid'
  rw [hx'] at hhome
  rcases h.placed e he with hpl | ⟨id', hid₁, -⟩
  · rw [hx] at hpl
    exact hp (by rw [← hep, ← Option.some.inj hpl, Option.some.inj hhome])
  · have := hg.idOf? hid₁
    rw [hid'] at this
    exact hid (hid₁.trans this.symm)

/-- Operations that report no failure and deliver none. -/
theorem Faithful.grow (h : Faithful w g) (hg : Grows w w') (hrep : g'.reported = g.reported)
    (hleft : ∀ r ∈ g.left, r ∈ g'.left)
    (hfail : ∀ id p, failuresFrom id p (w'.net.packets ++ g'.lost) =
      failuresFrom id p (w.net.packets ++ g.lost))
    (howed : Owed w' g') : Faithful w' g' := by
  refine ⟨fun r x hx hr hl => ?_, fun id p hp => ?_, fun e he => ?_, howed⟩
  · rw [hrep]
    cases hi : w.instance? r with
    | none =>
      rw [hg.new r x hi hx, List.filter_eq_nil_iff.mpr fun e he => ?_]
      · rfl
      · have hp : w.placeOf? e.scope ≠ none := by
          rcases h.placed e he with hp | ⟨_, -, hp⟩ <;> rw [hp] <;> simp
        simp only [decide_eq_true_eq]
        rintro rfl
        exact hp (by simp [placeOf?, hi])
    | some i =>
      obtain ⟨j, hj, hp, he, hid⟩ := hg.old r i hi
      obtain rfl : x = j := Option.some.inj (hx.symm.trans hj)
      rw [he]
      refine h.kept r i hi ?_ fun hm => hl (hleft r hm)
      rcases hid with hid | ⟨hn, -⟩
      · rw [← hr, Instance.remoteId?_congr hp hid]
      · exact Instance.remoteId?_eq_none.mpr fun id hid => by
          rw [hn] at hid
          cases hid
  · rw [entriesAt_grows h hg hrep hp, entriesAt_grows h hg hrep hp, hfail]
    exact h.passed id p hp
  · rw [hrep] at he
    rcases h.placed e he with hp | ⟨id, hid, hp⟩
    · exact .inl (hg.placeOf? hp)
    · exact .inr ⟨id, hg.idOf? hid, hg.placeOf? hp⟩

/-! ### A failure is reported -/

theorem entriesAt_names (h : Namesakes w w') (g : Ledger β) : w'.entriesAt g = w.entriesAt g := by
  funext id q p
  unfold entriesAt
  rw [h.ids, h.places]

theorem entriesAt_report {e : Entry} (hrep : g'.reported = g.reported ++ [e]) (id : GlobalId)
    (q p : PlaceId) : w.entriesAt g' id q p = w.entriesAt g id q p ++
      if w.idOf? e.scope = some id ∧ w.placeOf? e.scope = some q ∧ e.place = p then [e.failure]
      else [] := by
  unfold entriesAt
  rw [hrep, List.filter_append, List.map_append]
  congr 1
  split_ifs with he
  · rw [List.filter_cons_of_pos (by simpa using he)]
    rfl
  · rw [List.filter_cons_of_neg (by simpa using he)]
    rfl

/-- One more failure is reported to an instance, and kept if the instance is a root. -/
theorem Faithful.report {e : Entry} (h : Faithful w g) (hc : Changes w w' e.scope i j)
    (hrep : g'.reported = g.reported ++ [e]) (hleft : g'.left = g.left)
    (hkept : i.remoteId? = none → j.exceptions = i.exceptions ++ [e.failure])
    (hplaced : w.placeOf? e.scope = some e.place ∨
      ∃ id, w.idOf? e.scope = some id ∧ w.placeOf? e.scope = some id.home)
    (hpassed : ∀ id p, p ≠ id.home →
      w.entriesAt g' id id.home p ++ failuresFrom id p (w'.net.packets ++ g'.lost) =
        (w.entriesAt g' id p p).map (Failure.relayed id.home))
    (howed : Owed w g') : Faithful w' g' := by
  have hst := hc.steady.toNamesakes
  refine ⟨fun r x hx hxr hl => ?_, fun id p hp => ?_, fun x hx => ?_, fun pk hpk => ?_⟩
  · rw [hleft] at hl
    rw [hrep, List.filter_append, List.map_append]
    rw [hc.new] at hx
    by_cases hrs : r = e.scope
    · rw [if_pos hrs] at hx
      cases hx
      have hir : i.remoteId? = none := (Instance.remoteId?_congr hc.place hc.id).symm.trans hxr
      rw [hkept hir, h.kept r i (hrs ▸ hc.old) hir hl, List.filter_cons_of_pos (by simp [hrs])]
      rfl
    · rw [if_neg hrs] at hx
      rw [h.kept r x hx hxr hl, List.filter_cons_of_neg (by simpa using Ne.symm hrs)]
      exact (List.append_nil _).symm
  · rw [entriesAt_names hst]
    exact hpassed id p hp
  · rw [hst.ids, hst.places]
    rw [hrep] at hx
    rcases List.mem_append.mp hx with hx | hx
    · exact h.placed x hx
    · rw [List.mem_singleton.mp hx]
      exact hplaced
  · rw [hst.ids, hst.places]
    exact howed pk hpk

/-- A failure that could not be sent was for a place that refuses. -/
theorem failuresFrom_lost (h : Consistent w g 0 []) (hn : ¬ w.net.Refuses id.home) (p : PlaceId) :
    failuresFrom id p g.lost = [] := by
  refine List.filterMap_eq_nil_iff.mpr fun pk hpk => ?_
  obtain ⟨sender, dest, m⟩ := pk
  have hl := h.lost _ hpk
  have ha := h.named.addressed ⟨sender, dest, m⟩ (by simp [hpk])
  cases m with
  | handOff tokens body => rfl
  | report id' deltas => rfl
  | failure id' payload =>
    refine if_neg ?_
    rintro ⟨rfl, -⟩
    have hd : dest = id'.home := ha.2.1
    rw [hd] at hl
    exact hn hl

/-- A failure is reported to a root by a body at home. -/
theorem Faithful.failHome (h : Faithful w g) (hi : w.instance? s = some i)
    (hr : i.remoteId? = none) (f : Failure) :
    Faithful (w.addSuppressed s f) (w.afterFailure g s f) := by
  have hf : w.forward s f = [] := by simp [forward, hi, hr]
  have hrep : (w.afterFailure g s f).reported = g.reported ++ [⟨s, i.place, f⟩] := by
    simp [afterFailure, entry_eq hi]
  have hlost : (w.afterFailure g s f).lost = g.lost := by simp [afterFailure, hf]
  have hheld : (w.afterFailure g s f).held = g.held := rfl
  have hch := changes_retain hi f { i with exceptions := i.exceptions ++ [f] } rfl rfl
  have hnet : (w.addSuppressed s f).net = w.net := by
    rw [addSuppressed_home hi hr]
    exact (alike_retain w s i f).net
  rw [← addSuppressed_home hi hr] at hch
  refine h.report hch hrep rfl (fun _ => rfl) (.inl (placeOf?_eq hi)) (fun id p hp => ?_) ?_
  · have hnew : ∀ q, ¬ (w.idOf? s = some id ∧ w.placeOf? s = some q ∧ i.place = p) := by
      rintro q ⟨hid, -, hip⟩
      rw [idOf?_eq hi] at hid
      exact hp (by rw [← hip, Instance.remoteId?_eq_none.mp hr id hid])
    rw [entriesAt_report hrep, entriesAt_report hrep, if_neg (hnew _), if_neg (hnew _),
      List.append_nil, List.append_nil, hnet, hlost]
    exact h.passed id p hp
  · unfold Owed
    rw [hlost, hheld]
    exact h.owed

/-- A failure is reported elsewhere: the message is the last of its place, sent or lost. -/
theorem failuresFrom_fail (hc : Consistent w g 0 []) (hi : w.instance? s = some i)
    {id₀ : GlobalId} (hr : i.remoteId? = some id₀) (f : Failure) (id : GlobalId) (p : PlaceId) :
    failuresFrom id p ((w.addSuppressed s f).net.packets ++ (w.afterFailure g s f).lost) =
      failuresFrom id p (w.net.packets ++ g.lost) ++
        if id₀ = id ∧ i.place = p then [f.relayed id.home] else [] := by
  have hf : w.forward s f = [⟨i.place, id₀.home, .failure id₀ f.encode⟩] := by simp [forward, hi, hr]
  have hnew : failuresFrom id p [(⟨i.place, id₀.home, .failure id₀ f.encode⟩ : Packet (Message β))] =
      if id₀ = id ∧ i.place = p then [f.relayed id.home] else [] := by
    rw [failuresFrom_cons, failuresFrom_nil, List.append_nil]
    simp only [failureFrom?]
    split_ifs with hc
    · rw [hc.1]
      rfl
    · rfl
  by_cases hn : w.net.Refuses id₀.home
  · obtain ⟨e, he⟩ : ∃ e, Network.send w.net ⟨i.place, id₀.home, .failure id₀ f.encode⟩ = .error e :=
      Pairwise.send_refused hn
    have hnet : (w.addSuppressed s f).net = w.net := by
      rw [addSuppressed_refused hi hr he]
      exact (alike_retain w s i f).net
    have hlost : (w.afterFailure g s f).lost =
        g.lost ++ [⟨i.place, id₀.home, .failure id₀ f.encode⟩] := by
      simp [afterFailure, hf, refused, hn]
    rw [hnet, hlost, ← List.append_assoc, failuresFrom_append, hnew]
  · have hnet : (w.addSuppressed s f).net =
        { w.net with packets := w.net.packets ++ [⟨i.place, id₀.home, .failure id₀ f.encode⟩] } := by
      rw [addSuppressed_sent hi hr (Pairwise.send_accepted hn)]
    have hlost : (w.afterFailure g s f).lost = g.lost := by simp [afterFailure, hf, refused, hn]
    rw [hnet, hlost]
    simp only [failuresFrom_append, hnew]
    split_ifs with hc'
    · rw [hc'.1] at hn
      rw [failuresFrom_lost hc hn, List.append_nil, List.append_nil]
    · rw [List.append_nil, List.append_nil]

/-- Reporting a failure changes one instance, if that. -/
theorem changes_addSuppressed (hi : w.instance? s = some i) (f : Failure) :
    ∃ j, Changes w (w.addSuppressed s f) s i j := by
  cases hr : i.remoteId? with
  | none =>
    rw [addSuppressed_home hi hr]
    exact ⟨_, changes_retain hi f { i with exceptions := i.exceptions ++ [f] } rfl rfl⟩
  | some id =>
    by_cases hn : w.net.Refuses id.home
    · obtain ⟨e, he⟩ : ∃ e, Network.send w.net ⟨i.place, id.home, .failure id f.encode⟩ = .error e :=
        Pairwise.send_refused hn
      rw [addSuppressed_refused hi hr he]
      exact ⟨_, changes_retain hi f { i with
        counters := (i.counters.spawnAway id.home w.known).unspawnAway id.home w.known
        exceptions := i.exceptions ++ [f] } rfl rfl⟩
    · rw [addSuppressed_sent hi hr (Pairwise.send_accepted hn)]
      obtain ⟨h1, h2, h3, h4, h5⟩ :=
        changes_retain hi f { i with counters := i.counters.spawnAway id.home w.known } rfl rfl
      exact ⟨_, h1, h2, h3, h4, h5⟩

theorem Faithful.failAway (h : Faithful w g) (hc : Consistent w g 0 []) (hi : w.instance? s = some i)
    {id₀ : GlobalId} (hr : i.remoteId? = some id₀) (hs : s ∈ g.held) (f : Failure) :
    Faithful (w.addSuppressed s f) (w.afterFailure g s f) := by
  obtain ⟨hid, hne⟩ := Instance.remoteId?_eq_some.mp hr
  obtain ⟨j, hch⟩ := changes_addSuppressed hi f
  have hrep : (w.afterFailure g s f).reported = g.reported ++ [⟨s, i.place, f⟩] := by
    simp [afterFailure, entry_eq hi]
  refine h.report hch hrep rfl (fun hx => (Option.some_ne_none id₀ (hr.symm.trans hx)).elim)
    (.inl (placeOf?_eq hi)) (fun id p hp => ?_) fun pk hpk id payload hm => ?_
  · have hhome : ¬ (w.idOf? s = some id ∧ w.placeOf? s = some id.home ∧ i.place = p) := by
      rintro ⟨-, hpl, hip⟩
      rw [placeOf?_eq hi, hip] at hpl
      exact hp (Option.some.inj hpl)
    have haway : (w.idOf? s = some id ∧ w.placeOf? s = some p ∧ i.place = p) ↔
        id₀ = id ∧ i.place = p := by
      rw [idOf?_eq hi, placeOf?_eq hi, hid]
      simp
    rw [entriesAt_report hrep, entriesAt_report hrep, if_neg hhome, failuresFrom_fail hc hi hr f,
      List.append_nil, ← List.append_assoc, h.passed id p hp, List.map_append]
    simp only [haway]
    split_ifs <;> rfl
  · rcases List.mem_append.mp hpk with hpk | hpk
    · rcases h.owed pk hpk id payload hm with ⟨q, hq, hq'⟩ | howed
      · exact .inl ⟨q, List.mem_append_left _ hq, hq'⟩
      · exact .inr howed
    · have hpk' := List.mem_of_mem_filter hpk
      simp only [forward, hi, hr, List.mem_singleton] at hpk'
      subst hpk'
      cases hm
      exact .inr ⟨s, hs, by rw [idOf?_eq hi, hid], placeOf?_eq hi⟩

theorem Faithful.fail (h : Faithful w g) (hc : Consistent w g 0 []) (hs : s ∈ g.held) (f : Failure) :
    Faithful (w.addSuppressed s f) (w.afterFailure g s f) := by
  obtain ⟨i, hi⟩ := Option.isSome_iff_exists.mp (hc.tidy.made s hs)
  cases hr : i.remoteId? with
  | none => exact h.failHome hi hr f
  | some id => exact h.failAway hc hi hr hs f

/-! ### A task ends -/

theorem failuresFrom_offer (n : Pairwise (Message β)) (lost : List (Packet (Message β)))
    (sender dest : PlaceId) (id' : GlobalId) (deltas : List Int) (id : GlobalId) (p : PlaceId)
    (hw : w.net = n) :
    failuresFrom id p ((offer n ⟨sender, dest, .report id' deltas⟩).packets ++
        (lost ++ w.refused [⟨sender, dest, .report id' deltas⟩])) =
      failuresFrom id p (n.packets ++ lost) := by
  have hnone : failureFrom? id p (⟨sender, dest, .report id' deltas⟩ : Packet (Message β)) = none := rfl
  by_cases hr : n.Refuses dest
  · rw [offer_refused hr]
    simp [refused, hw, hr, hnone]
  · rw [offer_accepted hr]
    simp [refused, hw, hr, hnone]

theorem failuresFrom_tell (w : World Pairwise β) (g : Ledger β) (s : Serial) (id : GlobalId)
    (p : PlaceId) : failuresFrom id p ((w.tell s).net.packets ++ (w.afterTell g s).lost) =
      failuresFrom id p (w.net.packets ++ g.lost) := by
  unfold afterTell
  cases hi : w.instance? s with
  | none => simp [World.tell, due, hi]
  | some i =>
    cases hr : i.remoteId? with
    | none =>
      rw [tell_home hi hr]
      simp [due, hi, hr]
    | some id' =>
      cases hd : i.counters.tellAway i.place w.known with
      | mk deltas c =>
        cases deltas with
        | none =>
          rw [tell_away_quiet hi hr hd]
          simp [due, hi, hr, hd]
        | some deltas =>
          have hdue : w.due s = [⟨i.place, id'.home, .report id' deltas⟩] := by
            simp [due, hi, hr, hd]
          rw [(tell_last hi hr hd).1, hdue]
          exact failuresFrom_offer w.net g.lost _ _ _ _ id p rfl

/-- With its last task an instance away from home reports; if a failure was lost before, so is the
report. -/
theorem Owed.tell (h : Owed w g) (hc : Consistent w g 0 []) (s : Serial) :
    Owed (w.tell s) (w.afterTell g s) := by
  have hg := grows_tell w s
  intro pk hpk id payload hm
  have hpk' : pk ∈ g.lost := by
    rcases List.mem_append.mp hpk with hpk | hpk
    · exact hpk
    · have hdue := List.mem_of_mem_filter hpk
      unfold due at hdue
      split at hdue
      · cases hdue
      · split at hdue
        · cases hdue
        · split at hdue
          · cases hdue
          · rw [List.mem_singleton.mp hdue] at hm
            cases hm
  rcases h pk hpk' id payload hm with ⟨q, hq, hq'⟩ | ⟨t, ht, hid, hp⟩
  · exact .inl ⟨q, List.mem_append_left _ hq, hq'⟩
  · by_cases hte : t ∈ g.held.erase s
    · exact .inr ⟨t, hte, hg.idOf? hid, hg.placeOf? hp⟩
    · have hts : t = s := by
        by_contra hne
        exact hte ((Multiset.mem_erase_of_ne hne).mpr ht)
      subst hts
      obtain ⟨i, hi, hip⟩ := Option.map_eq_some_iff.mp hp
      have haddr := hc.named.addressed pk (by simp [hpk'])
      unfold Addressed at haddr
      rw [hm] at haddr
      have hr : i.remoteId? = some id := by
        refine Instance.remoteId?_eq_some.mpr ⟨by rw [← idOf?_eq hi, hid], ?_⟩
        rw [hip]
        exact Ne.symm haddr.2.2
      have hone : i.counters.count = 1 := by
        have h1 : g.held.count t ≤ 1 := by
          by_contra hlt
          refine hte (Multiset.one_le_count_iff_mem.mp ?_)
          rw [Multiset.count_erase_self]
          omega
        have h2 := Multiset.one_le_count_iff_mem.mpr ht
        rw [hc.tidy.count t i id hi hr]
        omega
      obtain ⟨deltas, c, hd, -⟩ := Counters.tellAway_report i.place w.known hone
      have hdue : w.due t = [⟨i.place, id.home, .report id deltas⟩] := by simp [due, hi, hr, hd]
      have href : w.net.Refuses id.home := haddr.2.1 ▸ hc.lost pk hpk'
      refine .inl ⟨⟨i.place, id.home, .report id deltas⟩, List.mem_append_right _ ?_, hip, deltas, rfl⟩
      rw [hdue, refused, List.mem_filter]
      exact ⟨List.mem_singleton_self _, by simpa using href⟩

theorem Faithful.tell (h : Faithful w g) (hc : Consistent w g 0 []) (s : Serial) :
    Faithful (w.tell s) (w.afterTell g s) :=
  h.grow (grows_tell w s) rfl (fun _ hr => hr) (failuresFrom_tell w g s) (h.owed.tell hc s)

/-! ### A failure arrives -/

theorem changes_trans {k : Instance} {w'' : World Pairwise β} (h : Changes w w' s i j)
    (h' : Changes w' w'' s j k) : Changes w w'' s i k := by
  refine ⟨h.old, fun t => ?_, h'.tables.trans h.tables, h'.place.trans h.place, h'.id.trans h.id⟩
  rw [h'.new, h.new]
  split_ifs <;> rfl

/-- The root keeps the failure; the task it counted as ends. -/
theorem changes_deliverFailure (hi : w.instance? r = some i) (hr : i.remoteId? = none)
    (hl : w.lookup p id = .ok r) (payload : Wire.Bytes) :
    ∃ j, Changes w (w.deliverFailure p id payload) r i j ∧
      j.exceptions = i.exceptions ++ [.ofDecoded (Failure.decode payload) p] ∧
      (w.deliverFailure p id payload).net = w.net := by
  generalize hf : Failure.ofDecoded (Failure.decode payload) p = f
  have hw : w.deliverFailure p id payload = (w.addSuppressed r f).tell r := by
    simp only [deliverFailure, hl, submit_home hi hr, hf]
  have h1 := changes_retain hi f { i with exceptions := i.exceptions ++ [f] } rfl rfl
  rw [← addSuppressed_home hi hr] at h1
  have hj : (w.addSuppressed r f).instance? r = some { i with exceptions := i.exceptions ++ [f] } := by
    rw [h1.new, if_pos rfl]
  have hjr : Instance.remoteId? { i with exceptions := i.exceptions ++ [f] } = none := hr
  have h2 := changes_set hj ((Instance.retire { i with exceptions := i.exceptions ++ [f] }
    (i.counters.tellAtHome i.place (w.addSuppressed r f).known).1.released
    (i.counters.tellAtHome i.place (w.addSuppressed r f).known).2)) rfl rfl
  rw [hw, tell_home hj hjr]
  refine ⟨_, changes_trans h1 h2, rfl, ?_⟩
  show (w.addSuppressed r f).net = w.net
  rw [addSuppressed_home hi hr]
  exact (alike_retain w r i f).net

/-- A failure that has arrived was the first of its place, and is the next that the root keeps. -/
theorem Faithful.deliverFailure (h : Faithful w g) (hi : w.instance? r = some i)
    (hid : i.id = some id) (hp : i.place = id.home) (hr : i.remoteId? = none)
    (hl : w.lookup id.home id = .ok r) {before after : List (Packet (Message β))}
    {payload : Wire.Bytes} (hpk : w.net.packets = before ++ ⟨q, id.home, .failure id payload⟩ :: after)
    (hb : failuresFrom id q before = []) (hrep : g'.reported =
      g.reported ++ [⟨r, q, .ofDecoded (Failure.decode payload) id.home⟩])
    (hlost : g'.lost = g.lost) (hheld : g'.held = g.held) (hleft : g'.left = g.left) :
    Faithful ((w.withPackets (before ++ after)).deliverFailure id.home id payload) g' := by
  have hl' : (w.withPackets (before ++ after)).lookup id.home id = .ok r := hl
  have hi' : (w.withPackets (before ++ after)).instance? r = some i := hi
  obtain ⟨j, hch, hje, hnet⟩ := changes_deliverFailure hi' hr hl' payload
  have hch' : Changes w ((w.withPackets (before ++ after)).deliverFailure id.home id payload) r i j :=
    ⟨hch.old, hch.new, hch.tables, hch.place, hch.id⟩
  have hrid : w.idOf? r = some id := by rw [idOf?_eq hi, hid]
  have hrp : w.placeOf? r = some id.home := by rw [placeOf?_eq hi, hp]
  refine h.report hch' hrep hleft (fun _ => hje) (.inr ⟨id, hrid, hrp⟩) (fun id' p hne => ?_) ?_
  · have hpass := h.passed id' p hne
    have haway : ¬ (w.idOf? r = some id' ∧ w.placeOf? r = some p ∧ q = p) := by
      rintro ⟨h1, h2, -⟩
      rw [hrid] at h1
      rw [hrp] at h2
      cases h1
      cases h2
      exact hne rfl
    have hhome : (w.idOf? r = some id' ∧ w.placeOf? r = some id'.home ∧ q = p) ↔
        id = id' ∧ q = p := by
      rw [hrid, hrp]
      simp only [Option.some.injEq]
      exact ⟨fun hx => ⟨hx.1, hx.2.2⟩, fun hx => ⟨hx.1, by rw [hx.1], hx.2⟩⟩
    rw [hpk] at hpass
    rw [entriesAt_report hrep, entriesAt_report hrep, if_neg haway, List.append_nil, ← hpass, hnet,
      packets_withPackets, hlost]
    simp only [hhome, failuresFrom_append, failuresFrom_cons, failureFrom?]
    split_ifs with hc
    · obtain ⟨rfl, rfl⟩ := hc
      simp [hb]
    · simp
  · unfold Owed
    rw [hlost, hheld]
    exact h.owed

theorem Faithful.alike (h : Faithful w g) (ha : Alike w w') : Faithful w' g :=
  h.grow (.of_instances ha.instance?) rfl (fun _ hr => hr) (fun id p => by rw [ha.net]) fun pk hm => by
    have hst := (steady_of_alike ha).toNamesakes
    rw [hst.ids, hst.places]
    exact h.owed pk hm

/-- A message that is no failure is taken off its lane. -/
theorem Faithful.arrive (h : Faithful w g) {before after : List (Packet (Message β))}
    (hp : w.net.packets = before ++ pk :: after)
    (hm : ∀ id payload, pk.content ≠ .failure id payload) :
    Faithful (w.withPackets (before ++ after)) g :=
  h.grow (.of_instances rfl) rfl (fun _ hr => hr) (fun id p => by
    have hnone : failureFrom? id p pk = none := by
      unfold failureFrom?
      split
      · rename_i hx
        exact absurd hx (hm _ _)
      · rfl
    rw [hp]
    simp [hnone]) h.owed

/-- The next message of a lane is delivered. -/
theorem Faithful.deliver (h : Faithful w g) (hc : Consistent w g 0 []) {lane : Lane}
    (hw : w.deliver lane = some w') : Faithful w' (w.afterDelivery g lane) := by
  obtain ⟨before, pk, after, w₁, hp, hb, ha, hct⟩ := hc.delivery hw
  refine Faithful.alike ?_ hct.toAlike
  generalize w.afterDelivery g lane = g' at ha ⊢
  cases ha with
  | stray sender dest tokens body =>
    have h0 := h.arrive hp fun _ _ => nofun
    exact h0.grow (.refl _) rfl (fun _ hr => hr) (fun _ _ => rfl) h0.owed
  | task sender dest tokens body accepted w₂ hbuilt ho hps =>
    have h0 := h.arrive hp fun _ _ => nofun
    have h2 := grows_acceptAll (w.withPackets (before ++ after)) dest tokens
    have h3 := still_acceptAll (w.withPackets (before ++ after)) dest tokens
    rw [ho] at h2 h3
    refine Faithful.alike (h0.grow h2 rfl (fun _ hr => hr) (fun id p => ?_) ?_) (alike_enqueue _ _)
    · rw [h3.net]
    · exact h0.owed.mono h2 (fun _ hm => hm) (fun s hm => Multiset.mem_add.mpr (.inr hm))
        fun _ hm => .inl hm
  | report sender dest id deltas =>
    have h0 := h.arrive hp fun _ _ => nofun
    have h2 := grows_receiveReport (w.withPackets (before ++ after)) dest id deltas
    refine h0.grow h2 rfl (fun _ hr => hr) (fun id' p => ?_) ?_
    · rw [(still_receiveReport _ dest id deltas).net]
    · exact h0.owed.mono h2 (fun _ hm => hm) (fun s hm => hm) fun _ hm => .inl hm
  | failure sender id payload r i hne hi hid hip hr hl =>
    refine h.deliverFailure hi hid hip hr hl hp ?_ rfl rfl rfl rfl
    refine List.filterMap_eq_nil_iff.mpr fun pk hpk => ?_
    -- a failure from the same place would be on the same lane, before the one that was taken
    obtain ⟨sender', dest', m'⟩ := pk
    have haddr := hc.named.addressed ⟨sender', dest', m'⟩ (by simp [hp, hpk])
    cases m' with
    | failure id' payload' =>
      refine if_neg ?_
      rintro ⟨rfl, rfl⟩
      exact hb _ hpk haddr.2.1 rfl
    | _ => rfl

/-! ### Runs -/

/-- Handing a task over sends at most the message that carries it. -/
theorem packets_spawnAt (w : World Pairwise β) (task : Task β) (p target : PlaceId) :
    (w.spawnAt task p target).2.net.packets = w.net.packets ∨
      ∃ tokens, (w.spawnAt task p target).2.net.packets =
        w.net.packets ++ [⟨p, target, .handOff tokens task.body⟩] := by
  unfold World.spawnAt
  split_ifs
  · exact .inl (congrArg Pairwise.packets
      ((still_spawnAll w _ p).trans (still_submitAll _ task.finishes)).net)
  · have h0 := still_prepareAll w task.finishes
    rcases hr : w.prepareAll task.finishes with ⟨_ | tokens, w₁⟩ <;> rw [hr] at h0
    · exact .inl (congrArg Pairwise.packets h0.net)
    · have h1 := h0.trans (still_spawnAll w₁ task.finishes target)
      simp only [World.send]
      by_cases hn : w₁.net.Refuses target
      · obtain ⟨e, he⟩ : ∃ e, Network.send w₁.net ⟨p, target, .handOff tokens task.body⟩ = .error e :=
          Pairwise.send_refused hn
        simp only [net_spawnAll, he]
        exact .inl (congrArg Pairwise.packets (h1.trans (still_unspawnAll _ task.finishes target)).net)
      · have he : Network.send w₁.net ⟨p, target, .handOff tokens task.body⟩ = .ok _ :=
          Pairwise.send_accepted hn
        simp only [net_spawnAll, he]
        exact .inr ⟨tokens, congrArg (·.packets ++ _) h0.net⟩

theorem Faithful.spawnAt (h : Faithful w g) (hc : Consistent w g 0 []) (task : Task β)
    (target : PlaceId) : Faithful (w.spawnAt task p target).2 (w.afterSpawn g task p target) := by
  have hg := hc.orderly.grows_spawnAt task p target
  have hsame : (w.afterSpawn g task p target).reported = g.reported ∧
      (w.afterSpawn g task p target).lost = g.lost ∧
      (w.afterSpawn g task p target).left = g.left ∧
      ∀ s ∈ g.held, s ∈ (w.afterSpawn g task p target).held := by
    unfold afterSpawn
    cases (w.spawnAt task p target).1 with
    | error e => exact ⟨rfl, rfl, rfl, fun _ hs => hs⟩
    | ok _ =>
      refine ⟨rfl, rfl, rfl, fun s hs => ?_⟩
      dsimp only
      split_ifs
      · exact Multiset.mem_add.mpr (.inr hs)
      · exact hs
  obtain ⟨hrep, hlost, hleft, hheld⟩ := hsame
  refine h.grow hg hrep (fun r hr => hleft ▸ hr) (fun id q => ?_)
    (h.owed.mono hg (fun _ hm => hlost ▸ hm) hheld fun _ hm => .inl (hlost ▸ hm))
  rw [hlost]
  rcases packets_spawnAt w task p target with hp | ⟨tokens, hp⟩
  · rw [hp]
  · rw [hp]
    simp [failureFrom?]

/-- Leaving takes the failures of one root, which is left from then on. -/
theorem Faithful.leave (h : Faithful w g) (hi : w.instance? r = some i) :
    Faithful (w.leave r).2 { g with left := r :: g.left } := by
  obtain ⟨hnet, -, hinst, -⟩ := leave_spec hi
  have hw : (w.leave r).2 = ((w.exit r).takeExceptions r).2 := rfl
  rw [hw]
  generalize ((w.exit r).takeExceptions r).2 = w' at hnet hinst ⊢
  have hst := namesakes_of_set hi hinst rfl rfl
  refine ⟨fun s x hx hxr hl => ?_, fun id p hp => ?_, fun e he => ?_, fun pk hm => ?_⟩
  · obtain ⟨hsr, hl⟩ := not_or.mp (List.mem_cons.not.mp hl)
    rw [hinst, if_neg hsr] at hx
    exact h.kept s x hx hxr hl
  · rw [entriesAt_names hst, hnet]
    exact h.passed id p hp
  · rw [hst.ids, hst.places]
    exact h.placed e he
  · rw [hst.ids, hst.places]
    exact h.owed pk hm

theorem Faithful.renet (h : Faithful w g) (hi : w'.instance? = w.instance?)
    (hp : w'.net.packets = w.net.packets) : Faithful w' g :=
  h.grow (.of_instances hi) rfl (fun _ hr => hr) (fun _ _ => by rw [hp])
    (h.owed.mono (.of_instances hi) (fun _ hm => hm) (fun _ hs => hs) fun _ hm => .inl hm)

theorem Faithful.step (h : Faithful w g) (hc : Consistent w g 0 []) (hs : Step w g w' g') :
    Faithful w' g' := by
  cases hs with
  | openScope p kind hp =>
    have hg := grows_openScope w p kind
    exact h.grow hg rfl (fun _ hr => hr) (fun _ _ => rfl) (h.owed.mono hg (fun _ hm => hm)
      (fun s hs => Multiset.mem_cons_of_mem hs) fun _ hm => .inl hm)
  | spawn task p target hs => exact h.spawnAt hc task target
  | fail s f hs => exact h.fail hc hs f
  | tell s hs => exact h.tell hc s
  | deliver lane _ hw => exact h.deliver hc hw
  | leave r i hi hr hz => exact h.leave hi
  | kill p _ hw =>
    cases hw
    exact h.renet rfl rfl
  | resize known hl => exact h.renet rfl rfl
  | elsewhere _ ha => exact h.alike ha

/-- At all times the failures are with the root or on their way to it. -/
theorem Reachable.faithful (h : Reachable w g) : Faithful w g := by
  induction h with
  | start net places kind spins hn hp => exact faithful_start net hn places kind spins
  | step hr hs ih => exact ih.step hr.consistent hs

/-! ### Release -/

/-- Of a scope that is released no failure is on its way, and none was lost. -/
theorem failuresFrom_released (h : Reachable w g) (hi : w.instance? r = some i)
    (hid : i.id = some id) (hr : i.remoteId? = none) (hz : w.isReleasable r = true) (p : PlaceId) :
    failuresFrom id p (w.net.packets ++ g.lost) = [] := by
  have hc := h.consistent
  obtain ⟨he, hout⟩ := hc.settled hi hr (hc.tally_of_released hi hr hz)
  have hreports := reportsOf_of_episodes he
  refine List.filterMap_eq_nil_iff.mpr fun pk hpk => ?_
  obtain ⟨sender, dest, m⟩ := pk
  cases m with
  | handOff tokens body => rfl
  | report id' deltas => rfl
  | failure id' payload =>
    refine if_neg ?_
    rintro ⟨rfl, -⟩
    rcases List.mem_append.mp hpk with hpk | hpk
    · -- on its way it would count as a task
      obtain ⟨before, after, hpks⟩ := List.append_of_mem hpk
      have h0 := (hout dest.index).2.2.1
      rw [hpks, hid] at h0
      simp only [carriedAt_append, carriedAt_cons, Message.carried, if_pos] at h0
      omega
    · rcases h.faithful.owed _ hpk id' payload rfl with ⟨⟨sender', dest', m'⟩, hq, -, deltas, hm⟩ |
        ⟨s, hs, hsid, hsp⟩
      · -- the report was lost too, and the root misses it
        obtain rfl : m' = .report id' deltas := hm
        obtain ⟨before, after, hpks⟩ := List.append_of_mem hq
        rw [hpks, hid] at hreports
        simp [Message.deltas?] at hreports
      · -- the episode goes on
        have h0 := (hout sender.index).2.1
        have hpos : 0 < w.tasksAt r sender.index g.held :=
          Multiset.countP_pos.mpr ⟨s, hs,
            (akin_iff hsid).mpr (by rw [idOf?_eq hi, hid]), (sitsAt_of hsp _).mpr rfl⟩
        omega

/-- The failures that bodies have reported, without those that messages have brought. -/
def bodyReports (w : World Pairwise β) (g : Ledger β) : List Entry :=
  g.reported.filter fun e => w.placeOf? e.scope = some e.place

/-- What the root was told of from its own place is what bodies reported there. -/
theorem reports_home (h : Consistent w g 0 []) (hi : w.instance? r = some i)
    (hr : i.remoteId? = none) :
    (g.reported.filter fun e => e.scope = r ∧ e.place = i.place) =
      (w.bodyReports g).filter fun e => w.Akin r e.scope ∧ e.place = i.place := by
  unfold bodyReports
  rw [List.filter_filter]
  refine List.filter_congr fun e _ => ?_
  rw [← Bool.decide_and, decide_eq_decide]
  constructor
  · rintro ⟨rfl, hep⟩
    exact ⟨⟨.refl w _, hep⟩, by rw [placeOf?_eq hi, hep]⟩
  · rintro ⟨⟨ha, hep⟩, hpl⟩
    exact ⟨(h.orderly.eq_root hi hr).mp ⟨ha, by rw [hpl, hep]⟩, hep⟩

/-- Of a scope that no other place knows of nothing is reported elsewhere. -/
theorem reports_confined (h : Faithful w g) (hi : w.instance? r = some i) (hid : i.id = none)
    (hp : p ≠ i.place) :
    (g.reported.filter fun e => e.scope = r ∧ e.place = p) = [] ∧
      ((w.bodyReports g).filter fun e => w.Akin r e.scope ∧ e.place = p) = [] := by
  have hpl : w.placeOf? r ≠ some p := by
    rw [placeOf?_eq hi]
    exact fun hx => hp (Option.some.inj hx).symm
  have hrid : w.idOf? r = none := by rw [idOf?_eq hi, hid]
  constructor
  · refine List.filter_eq_nil_iff.mpr fun e he => ?_
    simp only [decide_eq_true_eq]
    rintro ⟨rfl, rfl⟩
    rcases h.placed e he with hx | ⟨id, hx, -⟩
    · exact hpl hx
    · rw [hrid] at hx
      cases hx
  · refine List.filter_eq_nil_iff.mpr fun e he => ?_
    have hbody : w.placeOf? e.scope = some e.place := by simpa using List.of_mem_filter he
    simp only [decide_eq_true_eq]
    rintro ⟨hs | ⟨hsome, he'⟩, rfl⟩
    · exact hpl (hs ▸ hbody)
    · rw [he', hrid] at hsome
      cases hsome

theorem akin_root (hi : w.instance? r = some i) (hid : i.id = some id) :
    w.Akin r s ↔ w.idOf? s = some id := by
  rw [← akin_iff (by rw [idOf?_eq hi, hid])]
  exact ⟨Akin.symm, Akin.symm⟩

/-- What the root was told of from a place. -/
theorem entriesAt_root (hc : Consistent w g 0 []) (hi : w.instance? r = some i) (hid : i.id = some id)
    (hr : i.remoteId? = none) (p : PlaceId) :
    (g.reported.filter fun e => e.scope = r ∧ e.place = p).map (·.failure) =
      w.entriesAt g id id.home p := by
  have hhome : id.home = i.place := Instance.remoteId?_eq_none.mp hr id hid
  refine congrArg (List.map _) (List.filter_congr fun e _ => ?_)
  rw [decide_eq_decide, ← akin_root hi hid, ← hc.orderly.eq_root hi hr, hhome, and_assoc]

/-- What bodies of the scope reported at a place. -/
theorem entriesAt_bodies (hi : w.instance? r = some i) (hid : i.id = some id) (g : Ledger β)
    (p : PlaceId) :
    ((w.bodyReports g).filter fun e => w.Akin r e.scope ∧ e.place = p).map (·.failure) =
      w.entriesAt g id p p := by
  unfold bodyReports
  rw [List.filter_filter]
  refine congrArg (List.map _) (List.filter_congr fun e _ => ?_)
  rw [← Bool.decide_and, decide_eq_decide, akin_root hi hid]
  constructor
  · rintro ⟨⟨he, rfl⟩, hpl⟩
    exact ⟨he, hpl, rfl⟩
  · rintro ⟨he, hpl, rfl⟩
    exact ⟨⟨he, rfl⟩, hpl⟩

/-- What the root was told of from another place, what is on its way from there and what was lost is
what bodies reported there, as it arrives. -/
theorem reports_passed (hc : Consistent w g 0 []) (hf : Faithful w g) (hi : w.instance? r = some i)
    (hid : i.id = some id) (hr : i.remoteId? = none) (hp : p ≠ id.home) :
    ((g.reported.filter fun e => e.scope = r ∧ e.place = p).map (·.failure)) ++
        failuresFrom id p (w.net.packets ++ g.lost) =
      ((w.bodyReports g).filter fun e => w.Akin r e.scope ∧ e.place = p).map fun e =>
        e.failure.relayed id.home := by
  rw [entriesAt_root hc hi hid hr, hf.passed id p hp, ← entriesAt_bodies hi hid, List.map_map]
  rfl

/-- Of the failures from one place, the root of a released scope has been told of those that bodies
of the scope reported there, in this order. -/
theorem released_reports (h : Reachable w g) (hi : w.instance? r = some i) (hr : i.remoteId? = none)
    (hz : w.isReleasable r = true) (p : PlaceId) :
    ((g.reported.filter fun e => e.scope = r ∧ e.place = p).map (·.failure)) =
      ((w.bodyReports g).filter fun e => w.Akin r e.scope ∧ e.place = p).map fun e =>
        if p = i.place then e.failure else e.failure.relayed i.place := by
  by_cases hp : p = i.place
  · simp only [if_pos hp]
    rw [hp, reports_home h.consistent hi hr]
  · simp only [if_neg hp]
    cases hid : i.id with
    | none =>
      obtain ⟨h1, h2⟩ := reports_confined h.faithful hi hid hp
      rw [h1, h2]
      rfl
    | some id =>
      have hhome : id.home = i.place := Instance.remoteId?_eq_none.mp hr id hid
      rw [← hhome] at hp ⊢
      rw [← reports_passed h.consistent h.faithful hi hid hr hp,
        failuresFrom_released h hi hid hr hz, List.append_nil]

end World

end Quiescence
