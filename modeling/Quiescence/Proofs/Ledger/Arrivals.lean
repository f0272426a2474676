/-
# Messages that arrive keep the accounts

A message is taken off its lane and applied at its destination, if the place was
ever built. It finds the scopes it speaks of: a scope with a task or a report on
its way has not been left.

* `Consistent.acceptAll`: a task is accepted under each of its tokens; no token
  fails.
* `Consistent.deliverFailure`: a failure is accepted as a task, reported to the
  root, and ended.
* `Consistent.deliver`: whatever is next on a lane is delivered.
-/
import Quiescence.Proofs.Growth

namespace Quiescence

namespace World

variable {β : Type} {w w' : World Pairwise β} {g g' : Ledger β}
  {limbo limbo' : Multiset (Serial × PlaceId)} {arrived arrived' : List (Packet (Message β))}
  {r s t : Serial} {i j : Instance} {p : PlaceId} {id : GlobalId}

/-! ### Tasks -/

/-- A scope that some message carries a task of is bound at home. -/
theorem Consistent.bound_of_carried (h : Consistent w g limbo arrived) {pk : Packet (Message β)}
    (hpk : pk ∈ arrived) (hroot : w.Rooted id) (hc : pk.content.carried (some id) ≠ 0) :
    ∃ r i, w.instance? r = some i ∧ i.id = some id ∧ i.place = id.home ∧ i.remoteId? = none ∧
      w.bound? id.home id = some (.scope r) := by
  obtain ⟨r, i, hi, hid, hp, hr⟩ := hroot.root
  refine ⟨r, i, hi, hid, hp, hr, ?_⟩
  refine h.named.bound r id (by rw [idOf?_eq hi, hid]) (by rw [placeOf?_eq hi, hp]) ?_
  refine h.open_of_outstanding hi (k := pk.dest.index) ?_
  obtain ⟨before, after, rfl⟩ := List.append_of_mem hpk
  rw [hid]
  simp only [carriedAt_append, carriedAt_cons, if_pos]
  omega

/-- A token that has arrived with a task finds an instance of its scope, or makes one. -/
theorem Consistent.resolve_ok (h : Consistent w g limbo arrived) {tok : Token}
    {pk : Packet (Message β)} (hpk : pk ∈ arrived) (hroot : w.Rooted tok.id)
    (hc : pk.content.carried (some tok.id) ≠ 0) : ∃ s, (w.resolve tok p).1 = .ok s := by
  cases hb : w.bound? p tok.id with
  | some b =>
    obtain ⟨s, i, rfl, -⟩ := h.tidy.registered p tok.id b hb
    exact ⟨s, by rw [resolve_bound hb]⟩
  | none =>
    by_cases hhome : tok.id.home = p
    · obtain ⟨r, i, -, -, -, -, hbr⟩ := h.bound_of_carried hpk hroot hc
      rw [hhome, hb] at hbr
      cases hbr
    · exact ⟨_, by rw [resolve_fresh hb hhome]⟩

/-- One token of a task that has arrived. -/
theorem Consistent.accept {sender : PlaceId} {tok : Token} {tokens : List Token} {body : β}
    (h : Consistent w g limbo (⟨sender, p, .handOff (tok :: tokens) body⟩ :: arrived))
    (hp : w.Built p) :
    ∃ t, (w.accept tok p).1 = .ok t ∧ (w.accept tok p).2.placeOf? t = some p ∧
      Consistent (w.accept tok p).2 { g with held := t ::ₘ g.held } limbo
        (⟨sender, p, .handOff tokens body⟩ :: arrived) := by
  have haddr : ∀ x ∈ tok :: tokens, w.Rooted x.id :=
    h.named.addressed ⟨sender, p, .handOff (tok :: tokens) body⟩ (by simp)
  have hroot := haddr tok (List.mem_cons_self ..)
  obtain ⟨t, ht⟩ := h.resolve_ok (p := p) (List.mem_cons_self ..) hroot (by simp [Message.carried])
  have h1 := h.resolve hp hroot
  rcases hw : w.resolve tok p with ⟨r, w₁⟩
  rw [hw] at ht h1
  obtain rfl : r = .ok t := ht
  obtain ⟨hb, i, hi, rfl, hid⟩ := h.tidy.resolve_spec hp hw
  have haddr₁ : ∀ x ∈ tok :: tokens, w₁.Rooted x.id :=
    h1.named.addressed ⟨sender, i.place, .handOff (tok :: tokens) body⟩ (by simp)
  have h2 := h1.submit limbo (⟨sender, i.place, .handOff tokens body⟩ :: arrived) hi
    (fun id hr => ?_) (fun pk hpk => ?_) (fun _ hu => hu) fun r x k hx => ?_
  · have hacc : w.accept tok i.place = (.ok t, (w₁.submit t).2) := by simp [World.accept, hw]
    rw [hacc]
    refine ⟨t, rfl, ?_, h2⟩
    rw [(namesakes_submit w₁ t).places, placeOf?_eq hi]
  · have hr' := (Instance.remoteId?_eq_some.mp hr).1
    rw [hid] at hr'
    cases hr'
    exact (h1.tidy.flag t i tok.id hi hr).mpr hb
  · rcases List.mem_cons.mp hpk with rfl | hpk
    · exact .inr fun x hx => haddr₁ x (List.mem_cons_of_mem _ hx)
    · exact .inl (List.mem_cons_of_mem _ hpk)
  · have hak : w₁.Akin r t ↔ some tok.id = x.id := by
      rw [akin_iff (by rw [idOf?_eq hi, hid]), idOf?_eq hx, eq_comm]
    simp only [carriedAt_cons, Message.carried, List.countP_cons, decide_eq_true_eq, hak]
    split_ifs
    all_goals simp_all
    all_goals omega

/-- A task that has arrived at a place that was built is accepted under all its tokens, by instances
there. -/
theorem Consistent.acceptAll {sender : PlaceId} {tokens : List Token} {body : β}
    (h : Consistent w g limbo (⟨sender, p, .handOff tokens body⟩ :: arrived)) (hp : w.Built p) :
    (w.acceptAll p tokens).1.2 = true ∧
      (∀ t ∈ (w.acceptAll p tokens).1.1, (w.acceptAll p tokens).2.placeOf? t = some p) ∧
      Consistent (w.acceptAll p tokens).2
        { g with held := ↑(w.acceptAll p tokens).1.1 + g.held } limbo arrived := by
  induction tokens generalizing w g with
  | nil =>
    refine ⟨rfl, by simp [World.acceptAll], ?_⟩
    refine h.moved rfl rfl (Multiset.zero_add g.held) rfl rfl rfl (fun pk hpk => .inl ?_) h.lost (fun _ hu => hu)
      (fun _ => rfl) fun r x k _ => ?_
    · simp only [World.acceptAll, List.mem_append, List.mem_cons] at hpk ⊢
      tauto
    · simp [World.acceptAll, Message.carried, carriedAt_append]
  | cons tok tokens ih =>
    obtain ⟨t, ht, htp, h1⟩ := h.accept hp
    simp only [World.acceptAll]
    rcases hw : w.accept tok p with ⟨r, w₁⟩
    rw [hw] at ht htp h1
    obtain rfl : r = .ok t := ht
    have hbuilt : w₁.Built p := by
      obtain ⟨x, hx, hxp⟩ := Option.map_eq_some_iff.mp htp
      exact hxp ▸ h1.tidy.built t x hx
    obtain ⟨h2, hps, h3⟩ := ih h1 hbuilt
    refine ⟨h2, fun s hs => ?_, ?_⟩
    · rcases List.mem_cons.mp hs with rfl | hs
      · exact (grows_acceptAll w₁ p tokens).placeOf? htp
      · exact hps s hs
    simp only [Multiset.add_cons] at h3
    simpa only [← Multiset.cons_coe, Multiset.cons_add] using h3

/-! ### Failures -/

/-- A failure that has arrived goes to the root, and the task it counted as ends. -/
theorem Consistent.deliverFailure {sender : PlaceId} {payload : Wire.Bytes}
    (h : Consistent w g limbo (⟨sender, p, .failure id payload⟩ :: arrived)) :
    ∃ r i, w.instance? r = some i ∧ i.id = some id ∧ w.lookup p id = .ok r ∧
      Consistent (w.deliverFailure p id payload)
        { g with
          told := r ::ₘ g.told
          reported := g.reported ++ [⟨r, sender, Failure.ofDecoded (Failure.decode payload) p⟩] }
        limbo arrived := by
  obtain ⟨hroot, hd, -⟩ := h.named.addressed ⟨sender, p, .failure id payload⟩ (by simp)
  simp only at hd
  subst hd
  obtain ⟨r, i, hi, hid, hp, hr, hb⟩ :=
    h.bound_of_carried (List.mem_cons_self ..) hroot (by simp [Message.carried])
  have hl : w.lookup id.home id = .ok r := by simp [lookup, hb]
  refine ⟨r, i, hi, hid, hl, ?_⟩
  simp only [World.deliverFailure, hl]
  have h1 := h.submit limbo arrived hi (fun id' hx => by rw [hr] at hx; cases hx)
    (fun pk hpk => .inl (List.mem_cons_of_mem _ hpk)) (fun _ hu => hu) fun q x k hx => by
      have hak : w.Akin q r ↔ some id = x.id := by
        rw [akin_iff (by rw [idOf?_eq hi, hid]), idOf?_eq hx, eq_comm]
      simp only [carriedAt_cons, Message.carried, hak, hp]
      split_ifs
      all_goals simp_all
      all_goals omega
  rw [submit_home hi hr] at h1 ⊢
  generalize Failure.ofDecoded (Failure.decode payload) id.home = f
  have h2 := h1.fail (Multiset.mem_cons_self ..) f
  have hf : w.forward r f = [] := by simp [forward, hi, hr]
  simp only [afterFailure, hf, refused_nil, List.append_nil, List.filter_nil] at h2
  have h3 := h2.tell (Multiset.mem_cons_self ..)
  have hi' : (w.addSuppressed r f).instance? r = some { i with exceptions := i.exceptions ++ [f] } := by
    have hc := changes_retain hi f { i with exceptions := i.exceptions ++ [f] } rfl rfl
    rw [addSuppressed_home hi hr, hc.new, if_pos rfl]
  have hdue : (w.addSuppressed r f).due r = [] := by
    have : Instance.remoteId? { i with exceptions := i.exceptions ++ [f] } = none := hr
    simp [due, hi', this]
  simp only [afterTell, hdue, refused_nil, List.append_nil, Multiset.erase_cons_head] at h3
  simpa using h3.reported (g.reported ++ [⟨r, sender, f⟩])

/-! ### Deliveries -/

/-- The ledger after a packet that has been taken off its lane is applied. -/
def afterArrival (w : World Pairwise β) (g : Ledger β) (pk : Packet (Message β)) : Ledger β :=
  match w.site? pk.dest with
  | none => { g with astray := g.astray ++ [pk] }
  | some _ =>
    match pk.content with
    | .handOff tokens _ => { g with held := ↑(w.acceptAll pk.dest tokens).1.1 + g.held }
    | .report _ _ => g
    | .failure id payload =>
      match w.lookup pk.dest id with
      | .error _ => g
      | .ok r =>
        { g with
          told := r ::ₘ g.told
          reported :=
            g.reported ++ [⟨r, pk.sender, Failure.ofDecoded (Failure.decode payload) pk.dest⟩] }

theorem built_of_site {site : Site} (h : Tidy w g.held) (hs : w.site? p = some site) : w.Built p := by
  have ht : w.tableHome? p = some site.identities.here := by simp [tableHome?, table?, hs]
  rw [Built, ht, h.tables p _ ht]

theorem site_of_built (h : w.Built p) : w.site? p ≠ none := fun hs => by
  simp [Built, tableHome?, table?, hs] at h

/-- What becomes of a packet in the world without it. -/
inductive Arrival (w : World Pairwise β) (g : Ledger β) :
    Packet (Message β) → World Pairwise β → Ledger β → Prop where
  /-- Its place was never built; the places of roots were. -/
  | stray (sender dest tokens body) : Arrival w g ⟨sender, dest, .handOff tokens body⟩ w
      { g with astray := g.astray ++ [⟨sender, dest, .handOff tokens body⟩] }
  | task (sender dest tokens body accepted w') : w.Built dest →
      w.acceptAll dest tokens = ((accepted, true), w') →
      (∀ t ∈ accepted, w'.placeOf? t = some dest) →
      Arrival w g ⟨sender, dest, .handOff tokens body⟩ (w'.enqueue ⟨dest, accepted, body⟩)
        { g with held := ↑accepted + g.held }
  | report (sender dest id deltas) : Arrival w g ⟨sender, dest, .report id deltas⟩
      (w.receiveReport dest id deltas) g
  /-- The root is there, and the failure comes from another place. -/
  | failure (sender id payload r i) : sender ≠ id.home → w.instance? r = some i → i.id = some id →
      i.place = id.home → i.remoteId? = none → w.lookup id.home id = .ok r →
      Arrival w g ⟨sender, id.home, .failure id payload⟩ (w.deliverFailure id.home id payload)
        { g with
          told := r ::ₘ g.told
          reported :=
            g.reported ++ [⟨r, sender, Failure.ofDecoded (Failure.decode payload) id.home⟩] }

/-- Nothing changes but statistics. -/
structure Counts (w w' : World Pairwise β) : Prop extends Alike w w', Still w w' where
  diagnostics : ∀ p, (w'.site? p).map (·.diagnostics) = (w.site? p).map (·.diagnostics)

theorem Counts.refl (w : World Pairwise β) : Counts w w :=
  { Alike.refl w, Still.refl w with diagnostics := fun _ => rfl }

theorem counts_modifySite (w : World Pairwise β) (p : PlaceId) (f : Stats → Stats) :
    Counts w (w.modifySite p fun site => { site with stats := f site.stats }) :=
  { alike_modifySite w p (fun site => { site with stats := f site.stats }) fun _ => rfl,
    still_modifySite w p _ with
    diagnostics := fun q => by
      rw [site?_modifySite]
      split_ifs with hq
      · subst hq
        cases w.site? q <;> rfl
      · rfl }

theorem Consistent.arrival (h : Consistent w g limbo []) {before after : List (Packet (Message β))}
    {pk : Packet (Message β)} (hp : w.net.packets = before ++ pk :: after) :
    ∃ w', Arrival (w.withPackets (before ++ after)) g pk w'
        ((w.withPackets (before ++ after)).afterArrival g pk) ∧
      Counts w' ((w.withPackets (before ++ after)).receive pk.dest pk.content) := by
  obtain ⟨sender, dest, m⟩ := pk
  have haddr := h.named.addressed ⟨sender, dest, m⟩ (by simp [hp])
  have hsite : ∀ id : GlobalId, w.Rooted id → dest = id.home →
      (w.withPackets (before ++ after)).site? dest ≠ none := fun id hroot hd => by
    obtain ⟨r, i, hi, -, hip, -⟩ := hroot.root
    refine site_of_built ?_
    rw [show dest = i.place from hd.trans hip.symm]
    exact h.tidy.built r i hi
  unfold receive afterArrival
  cases hs : (w.withPackets (before ++ after)).site? dest with
  | none =>
    refine ⟨_, ?_, .refl _⟩
    cases m with
    | handOff tokens body => exact .stray sender dest tokens body
    | report id deltas => exact absurd hs (hsite id haddr.1 haddr.2.1)
    | failure id payload => exact absurd hs (hsite id haddr.1 haddr.2.1)
  | some site =>
    have hbuilt : (w.withPackets (before ++ after)).Built dest :=
      built_of_site (g := g) (h.tidy.congr rfl rfl) hs
    refine ⟨_, ?_, counts_modifySite _ dest Stats.deliver⟩
    cases m with
    | handOff tokens body =>
      obtain ⟨h1, hps, -⟩ := (h.arrive hp fun _ => rfl).acceptAll hbuilt
      rcases ho : (w.withPackets (before ++ after)).acceptAll dest tokens with ⟨⟨accepted, all⟩, w'⟩
      rw [ho] at h1 hps
      obtain rfl : all = true := h1
      simp only [receiveTask, ho]
      exact .task sender dest tokens body accepted w' hbuilt ho hps
    | report id deltas => exact .report sender dest id deltas
    | failure id payload =>
      obtain ⟨hroot, hd, hne⟩ := haddr
      simp only at hd hne
      subst hd
      obtain ⟨r, i, hi, hid, hip, hr, hb⟩ := (h.arrive hp fun _ => rfl).bound_of_carried
        (List.mem_cons_self ..) hroot (by simp [Message.carried])
      have hl : (w.withPackets (before ++ after)).lookup id.home id = .ok r := by simp [lookup, hb]
      simp only [hl]
      exact .failure sender id payload r i hne hi hid hip hr hl

/-- The ledger after the next message of a lane has been delivered. -/
def afterDelivery (w : World Pairwise β) (g : Ledger β) (lane : Lane) : Ledger β :=
  match Network.take w.net lane with
  | none => g
  | some (packet, net) => ({ w with net } : World Pairwise β).afterArrival g packet

/-- All that a delivery can do: the first packet of a lane arrives. -/
theorem Consistent.delivery (h : Consistent w g limbo []) {lane : Lane}
    (hw : w.deliver lane = some w') : ∃ before pk after w₁,
      w.net.packets = before ++ pk :: after ∧
      (∀ q ∈ before, q.dest = pk.dest → q.sender ≠ pk.sender) ∧
      Arrival (w.withPackets (before ++ after)) g pk w₁ (w.afterDelivery g lane) ∧
      Counts w₁ w' := by
  unfold World.deliver at hw
  unfold afterDelivery
  cases ht : Network.take w.net lane with
  | none =>
    rw [ht] at hw
    cases hw
  | some out =>
    obtain ⟨pk, net⟩ := out
    rw [ht] at hw
    obtain ⟨before, after, hp, hnet, hb⟩ := take_spec ht
    simp only [hnet, Option.some.injEq] at hw ⊢
    subst hw
    obtain ⟨w₁, ha, hct⟩ := h.arrival hp
    exact ⟨before, pk, after, w₁, hp, hb, ha, hct⟩

/-- The next message of a lane is delivered. -/
theorem Consistent.deliver (h : Consistent w g limbo []) {lane : Lane}
    (hw : w.deliver lane = some w') : Consistent w' (w.afterDelivery g lane) limbo [] := by
  obtain ⟨before, pk, after, w₁, hp, hb, ha, hct⟩ := h.delivery hw
  refine Consistent.alike ?_ hct.toAlike
  generalize w.afterDelivery g lane = g' at ha ⊢
  cases ha with
  | stray sender dest tokens body => exact (h.arrive hp fun _ => rfl).stray
  | task sender dest tokens body accepted w₂ hbuilt ho hps =>
    obtain ⟨-, -, h1⟩ := (h.arrive hp fun _ => rfl).acceptAll hbuilt
    rw [ho] at h1
    exact h1.alike (alike_enqueue _ _)
  | report sender dest id deltas => exact h.merge hp hb
  | failure sender id payload r i hne hi hid hip hr hl =>
    obtain ⟨r', -, -, -, hl', h1⟩ := (h.arrive hp fun _ => rfl).deliverFailure
    obtain rfl : r = r' := Except.ok.inj (hl.symm.trans hl')
    exact h1

end World

end Quiescence
