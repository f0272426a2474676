/-
# Failures reported keep the accounts

A failure reported at home is kept there and counts for nothing. One reported
elsewhere is a message, which counts as a task of the home place; where it cannot
be sent it is kept, and the count is taken back at once.
-/
import Quiescence.Proofs.Ledger.Retraction

namespace Quiescence

namespace World

variable {β : Type} {w w' : World Pairwise β} {g g' : Ledger β}
  {limbo limbo' : Multiset (Serial × PlaceId)} {arrived arrived' : List (Packet (Message β))}
  {r s t : Serial} {i j : Instance} {p : PlaceId} {id : GlobalId}

theorem entry_eq (hi : w.instance? s = some i) (f : Failure) : w.entry s f = [⟨s, i.place, f⟩] := by
  simp [entry, hi]

theorem changes_retain (hi : w.instance? s = some i) (f : Failure) (j : Instance)
    (hp : j.place = i.place) (hid : j.id = i.id) :
    Changes w ((w.retain s i f).setInstance s j) s i j := by
  have ha := alike_retain w s i f
  have hi' : (w.retain s i f).instance? s = some i := by rw [ha.instance?, hi]
  refine ⟨hi, fun t => ?_, ha.tables, hp, hid⟩
  rw [instance?_setInstance hi', ha.instance?]

/-- The failures have no part in the accounts. -/
theorem Consistent.reported (h : Consistent w g limbo arrived) (entries : List Entry) :
    Consistent w { g with reported := entries } limbo arrived :=
  ⟨h.tidy, h.named, h.ended, h.begun, h.exact, h.idle, h.sound, h.whereabouts, h.closed, h.lost⟩

theorem Consistent.kept (h : Consistent w g limbo arrived) (hi : w.instance? s = some i) (f : Failure)
    (hd : i.Differs j 0) (htidy : Tidy ((w.retain s i f).setInstance s j) g.held) :
    Consistent ((w.retain s i f).setInstance s j) g limbo arrived := by
  have ha := alike_retain w s i f
  have hi' : (w.retain s i f).instance? s = some i := by rw [ha.instance?, hi]
  have ho := (Offset.of_alike ha).set hi' hd
  rw [Pi.single_zero, add_zero] at ho
  exact h.offset ho htidy

/-- A failure reported at home is kept. -/
theorem Consistent.failHome (h : Consistent w g limbo arrived) (hi : w.instance? s = some i)
    (hr : i.remoteId? = none) (f : Failure) :
    Consistent (w.addSuppressed s f) (w.afterFailure g s f) limbo arrived := by
  have hf : w.forward s f = [] := by simp [forward, hi, hr]
  have htidy := h.tidy.addSuppressed s f
  rw [addSuppressed_home hi hr] at htidy ⊢
  have hd : i.Differs { i with exceptions := i.exceptions ++ [f] } 0 :=
    .of_home hr rfl rfl fun hx => ⟨hx, (add_zero _).symm⟩
  have h1 := h.kept hi f hd htidy
  have h2 := h1.reported (g.reported ++ w.entry s f)
  simpa [afterFailure, hf] using h2

/-- A failure forwarded is one more task of the home place, and it is on its way. -/
theorem Consistent.failSent (h : Consistent w g limbo arrived) (hi : w.instance? s = some i)
    (hr : i.remoteId? = some id) (hs : s ∈ g.held) (f : Failure) (hn : ¬ w.net.Refuses id.home) :
    Consistent (w.addSuppressed s f) (w.afterFailure g s f) limbo arrived := by
  obtain ⟨hid, hne⟩ := Instance.remoteId?_eq_some.mp hr
  have hf : w.forward s f = [⟨i.place, id.home, .failure id f.encode⟩] := by simp [forward, hi, hr]
  have htidy := h.tidy.addSuppressed s f
  rw [addSuppressed_sent hi hr (Pairwise.send_accepted hn)] at htidy ⊢
  have hc : Changes w { (w.retain s i f).setInstance s
      { i with counters := i.counters.spawnAway id.home w.known } with
      net := { w.net with packets := w.net.packets ++ [⟨i.place, id.home, .failure id f.encode⟩] } }
      s i { i with counters := i.counters.spawnAway id.home w.known } := by
    obtain ⟨h1, h2, h3, h4, h5⟩ :=
      changes_retain hi f { i with counters := i.counters.spawnAway id.home w.known } rfl rfl
    exact ⟨h1, h2, h3, h4, h5⟩
  have hg : w.afterFailure g s f = { g with
      spawned := (s, id.home) ::ₘ g.spawned, reported := g.reported ++ w.entry s f } := by
    simp [afterFailure, hf, refused, hn]
  rw [hg]
  generalize hw' : ({ (w.retain s i f).setInstance s
      { i with counters := i.counters.spawnAway id.home w.known } with
      net := { w.net with packets := w.net.packets ++ [⟨i.place, id.home, .failure id f.encode⟩] } } :
      World Pairwise β) = w' at htidy hc ⊢
  have hnet : w'.net = { w.net with
      packets := w.net.packets ++ [⟨i.place, id.home, .failure id f.encode⟩] } := by
    rw [← hw']
  have hrep : ∀ id?, reportsOf id? (w'.net.packets ++ g.lost) =
      reportsOf id? (w.net.packets ++ g.lost) := fun id? => by
    rw [hnet]
    simp [Message.deltas?]
  refine h.shift hi hs hc.new hc.steady rfl rfl htidy (fun _ _ hm => hm) rfl (fun pk hpk => ?_)
    (fun pk hpk => ?_) (fun _ => .inl) (fun u hu => ?_) (Pi.single id.home.index 1)
    (fun _ _ => single_nonneg _ _) (fun hx => by rw [hr] at hx; cases hx)
    (fun _ _ hm => absurd hs hm) (hc.episodes h.tidy hrep)
    (fun id' hx => hc.episode h.tidy htidy hs hs hx (Counters.unreported_addAway _ _ _ _) hrep)
    (outstanding_spawn rfl rfl) fun r x k hx hw => ?_
  · rw [hnet] at hpk
    simp only [List.mem_append, List.mem_singleton] at hpk ⊢
    by_cases hpk' : pk = ⟨i.place, id.home, .failure id f.encode⟩
    · subst hpk'
      exact .inr ⟨h.named.rooted s id (by rw [idOf?_eq hi, hid]), rfl, Ne.symm hne⟩
    · exact .inl (by tauto)
  · rw [hnet]
    exact h.lost pk hpk
  · simp only [Multiset.mem_add, Multiset.mem_cons] at hu ⊢
    rcases hu with (rfl | hu) | hu
    · exact .inr rfl
    · exact .inl (.inl hu)
    · exact .inl (.inr hu)
  · rw [hnet]
    have hak : w.Akin r s ↔ some id = x.id := by
      rw [akin_iff (by rw [idOf?_eq hi, hid]), idOf?_eq hx, eq_comm]
    simp only [unitsAt_cons, carriedAt_append, carriedAt_cons, carriedAt_nil, Message.carried, hak]
      at hw ⊢
    split_ifs <;> simp_all
    omega

/-- A failure that cannot be forwarded leaves the counters as they were. -/
theorem Consistent.failRefused (h : Consistent w g limbo arrived) (hi : w.instance? s = some i)
    (hr : i.remoteId? = some id) (f : Failure) (hn : w.net.Refuses id.home) :
    Consistent (w.addSuppressed s f) (w.afterFailure g s f) limbo arrived := by
  obtain ⟨hid, hne⟩ := Instance.remoteId?_eq_some.mp hr
  obtain ⟨e, he⟩ : ∃ e, Network.send w.net ⟨i.place, id.home, .failure id f.encode⟩ = .error e :=
    Pairwise.send_refused hn
  have hf : w.forward s f = [⟨i.place, id.home, .failure id f.encode⟩] := by simp [forward, hi, hr]
  have hd : i.Differs { i with
      counters := (i.counters.spawnAway id.home w.known).unspawnAway id.home w.known
      exceptions := i.exceptions ++ [f] } 0 := by
    refine .of_away hr rfl rfl rfl ?_
    simp only [Counters.unspawnAway, Counters.spawnAway, Counters.unreported_addAway, add_assoc,
      ← Pi.single_add, add_neg_cancel, Pi.single_zero]
  have htidy := h.tidy.addSuppressed s f
  rw [addSuppressed_refused hi hr he] at htidy ⊢
  have h1 := (h.kept hi f hd htidy).reported (g.reported ++ w.entry s f)
  have hg : w.afterFailure g s f = { g with
      lost := g.lost ++ [⟨i.place, id.home, .failure id f.encode⟩]
      reported := g.reported ++ w.entry s f } := by
    simp [afterFailure, hf, refused, hn]
  have hst := (changes_retain hi f _ hd.place hd.id).steady
  have hnet := (alike_retain w s i f).net
  rw [hg]
  refine h1.moved rfl rfl rfl rfl rfl rfl (fun pk hpk => ?_) (fun pk hpk => ?_) (fun _ hu => hu)
    (fun _ => by simp [Message.deltas?]) fun _ _ _ _ => rfl
  · by_cases hpk' : pk = ⟨i.place, id.home, .failure id f.encode⟩
    · subst hpk'
      refine .inr ⟨?_, rfl, Ne.symm hne⟩
      rw [hst.rooted]
      exact h.named.rooted s id (by rw [idOf?_eq hi, hid])
    · refine .inl ?_
      simp only [List.mem_append, List.mem_singleton] at hpk ⊢
      tauto
  · rcases List.mem_append.mp hpk with hm | hm
    · exact h1.lost pk hm
    · rw [List.mem_singleton.mp hm]
      show (w.retain s i f).net.Refuses id.home
      rw [hnet]
      exact hn

theorem Consistent.fail (h : Consistent w g limbo arrived) (hs : s ∈ g.held) (f : Failure) :
    Consistent (w.addSuppressed s f) (w.afterFailure g s f) limbo arrived := by
  obtain ⟨i, hi⟩ := Option.isSome_iff_exists.mp (h.tidy.made s hs)
  cases hr : i.remoteId? with
  | none => exact h.failHome hi hr f
  | some id =>
    by_cases hn : w.net.Refuses id.home
    · exact h.failRefused hi hr f hn
    · exact h.failSent hi hr hs f hn

end World

end Quiescence
