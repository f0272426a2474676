/-
# Failures reported, recorded and kept

Every failure that is reported to an instance makes one entry in the ledger. This
module says where else it is found.

* `Effect`: all that a step means for failures. It leaves them alone, or it
  reports one, to one instance.
* `Recorded`: for each instance of a kind that retains, what is recorded at its
  place is what was reported to it, in order. For the others nothing is.
* `Collected`: an instance keeps what it could not pass on. At home that is all
  that was reported; elsewhere it is what could not be sent.
-/
import Quiescence.Proofs.Recording

namespace Quiescence

/-- What the ledger has of one instance. -/
def Ledger.reportsTo {β : Type} (g : Ledger β) (s : Serial) : List (Serial × Failure) :=
  (g.reported.filter (·.scope = s)).map fun e => (e.scope, e.failure)

namespace World

section Effects

variable {β : Type} {w w' : World Pairwise β} {g g' : Ledger β} {r s : Serial} {i j : Instance}
  {p q : PlaceId} {id : GlobalId} {f : Failure}

/-- No failure is reported, recorded or lost. -/
structure Quiet (w : World Pairwise β) (g : Ledger β) (w' : World Pairwise β) (g' : Ledger β) : Prop where
  grows : Grows w w'
  retained : w'.retained = w.retained
  kinds : ∀ s k, w.kindOf? s = some k → w'.kindOf? s = some k
  reported : g'.reported = g.reported
  lost : ∀ id p, failuresFrom id p g'.lost = failuresFrom id p g.lost

/-- What a step means for failures. -/
inductive Effect (w : World Pairwise β) (g : Ledger β) (w' : World Pairwise β) (g' : Ledger β) : Prop where
  | quiet : Quiet w g w' g' → Effect w g w' g'
  /-- One is reported to an instance. What a root does not keep is not lost, what another instance
  keeps is. -/
  | noted (s i j f kept p) : Notes w w' s i j f kept → g'.reported = g.reported ++ [⟨s, p, f⟩] →
      (i.remoteId? = none → kept = [f]) →
      (∀ id q, q ≠ id.home → failuresFrom id q g'.lost = failuresFrom id q g.lost ++
        if w.idOf? s = some id ∧ w.placeOf? s = some q then kept.map (Failure.relayed id.home)
        else []) → Effect w g w' g'

theorem Quiet.of_silent {l : List Token} (hg : Grows w w') (hs : Silent l w w')
    (hrep : g'.reported = g.reported) (hlost : g'.lost = g.lost) : Quiet w g w' g' :=
  ⟨hg, hs.retained, fun _ _ => hs.kindOf?, hrep, fun _ _ => by rw [hlost]⟩

theorem Quiet.of_instances (hi : w'.instance? = w.instance?) (hr : w'.retained = w.retained)
    (hrep : g'.reported = g.reported) (hlost : g'.lost = g.lost) : Quiet w g w' g' :=
  .of_silent (l := []) (.of_instances hi) (.of_instances hr hi) hrep hlost

theorem failuresFrom_due (w : World Pairwise β) (s : Serial) (id : GlobalId) (p : PlaceId) :
    failuresFrom id p (w.refused (w.due s)) = [] := by
  refine List.filterMap_eq_nil_iff.mpr fun pk hpk => ?_
  have hdue := List.mem_of_mem_filter hpk
  unfold due at hdue
  split at hdue
  · cases hdue
  · split at hdue
    · cases hdue
    · split at hdue
      · cases hdue
      · rw [List.mem_singleton.mp hdue]
        rfl

theorem quiet_openScope (p : PlaceId) (kind : ScopeKind) :
    Quiet w g (w.openScope p kind).2 (w.afterOpen g p) := by
  refine ⟨grows_openScope w p kind, rfl, fun s k hs => ?_, rfl, fun _ _ => rfl⟩
  obtain ⟨i, hi, rfl⟩ := Option.map_eq_some_iff.mp hs
  refine kindOf?_eq ?_
  rw [World.openScope, instance?_addInstance, if_neg (Nat.ne_of_lt (serial_lt hi)), hi]

theorem quiet_spawnAt (ho : Orderly w) (g : Ledger β) (task : Task β) (p target : PlaceId) :
    Quiet w g (w.spawnAt task p target).2 (w.afterSpawn g task p target) := by
  have hs := silent_spawnAt (l := []) w task p target
  have hg := ho.grows_spawnAt task p target
  unfold afterSpawn
  cases (w.spawnAt task p target).1 with
  | ok _ => exact .of_silent hg hs rfl rfl
  | error e => exact .of_silent hg hs rfl rfl

theorem quiet_tell (w : World Pairwise β) (g : Ledger β) (s : Serial) :
    Quiet w g (w.tell s) (w.afterTell g s) := by
  have hs := silent_tell (l := []) w s
  refine ⟨grows_tell w s, hs.retained, fun _ _ => hs.kindOf?, rfl, fun id p => ?_⟩
  show failuresFrom id p (g.lost ++ _) = _
  rw [failuresFrom_append, failuresFrom_due, List.append_nil]

/-- What is lost with a failure reported elsewhere is what the instance keeps. -/
theorem effect_addSuppressed (ho : Orderly w) (g : Ledger β) (hi : w.instance? s = some i)
    (f : Failure) : Effect w g (w.addSuppressed s f) (w.afterFailure g s f) := by
  obtain ⟨j, hn⟩ := notes_addSuppressed (ho.built s i hi) hi f
  refine .noted s i j f _ i.place hn ?_ (fun hr => by simp [keeps, hr]) fun id q hq => ?_
  · show g.reported ++ w.entry s f = _
    rw [entry_eq hi]
  · show failuresFrom id q (g.lost ++ w.refused (w.forward s f)) = _
    rw [failuresFrom_append]
    congr 1
    cases hr : i.remoteId? with
    | none =>
      have hhome : ¬ (w.idOf? s = some id ∧ w.placeOf? s = some q) := by
        rintro ⟨hid, hp⟩
        rw [idOf?_eq hi] at hid
        rw [placeOf?_eq hi] at hp
        exact hq ((Option.some.inj hp).symm.trans (Instance.remoteId?_eq_none.mp hr id hid).symm)
      rw [if_neg hhome]
      simp [forward, hi, hr]
    | some id₀ =>
      have hid := (Instance.remoteId?_eq_some.mp hr).1
      have hf : w.forward s f = [⟨i.place, id₀.home, .failure id₀ f.encode⟩] := by
        simp [forward, hi, hr]
      rw [idOf?_eq hi, placeOf?_eq hi, hid, hf]
      by_cases hn : w.net.Refuses id₀.home
      · rw [show w.keeps i = true by simp [keeps, hr, hn]]
        simp only [refused, List.filter_cons, hn, decide_true, ↓reduceIte, List.filter_nil,
          failuresFrom_cons, failuresFrom_nil, failureFrom?, List.append_nil, Option.some.injEq]
        split_ifs with hx
        · obtain ⟨rfl, rfl⟩ := hx
          rfl
        · rfl
      · rw [show w.keeps i = false by simp [keeps, hr, hn]]
        simp [refused, hn]

theorem retained_counts (h : Counts w w') : w'.retained = w.retained := by
  funext p
  unfold World.retained
  rw [h.diagnostics p]

theorem kindOf?_counts (h : Counts w w') : w'.kindOf? = w.kindOf? := by
  funext s
  unfold World.kindOf?
  rw [h.instance?]

/-- Neither what is on its way nor statistics matter. -/
theorem Effect.within {w₁ : World Pairwise β} {pks : List (Packet (Message β))}
    (h : Effect (w.withPackets pks) g w₁ g') (hct : Counts w₁ w') : Effect w g w' g' := by
  have hret := retained_counts hct
  cases h with
  | quiet hq =>
    refine .quiet ⟨Grows.trans ⟨hq.grows.old, hq.grows.new⟩ (.of_instances hct.instance?),
      hret.trans hq.retained, fun s k hk => ?_, hq.reported, hq.lost⟩
    rw [kindOf?_counts hct]
    exact hq.kinds s k hk
  | noted s i j f kept p hn hr hroot hl =>
    refine .noted s i j f kept p ?_ hr hroot hl
    exact {
      old := hn.old
      new := fun t => by
        rw [hct.instance?]
        exact hn.new t
      tables := hct.tables.trans hn.tables
      place := hn.place
      id := hn.id
      kind := hn.kind
      exceptions := hn.exceptions
      retained := fun q => by
        rw [hret]
        exact hn.retained q }

/-- What is bound at the home of a scope is its root. -/
theorem Orderly.root_of_lookup (ho : Orderly w) (hp : p = id.home) (hl : w.lookup p id = .ok r) :
    ∃ i, w.instance? r = some i ∧ i.remoteId? = none := by
  have hb : w.bound? p id = some (.scope r) := by
    unfold lookup at hl
    split at hl <;> simp_all
  obtain ⟨i, hi, hip, hid⟩ := ho.registered p id r hb
  refine ⟨i, hi, Instance.remoteId?_eq_none.mpr fun id' hid' => ?_⟩
  obtain rfl : id = id' := Option.some.inj (hid.symm.trans hid')
  rw [hip, hp]

/-- A task is accepted, or what was accepted of it ends. -/
theorem silent_receiveTask (w : World Pairwise β) (p : PlaceId) (tokens : List Token) (body : β) :
    Grows w (w.receiveTask p tokens body) ∧ Silent tokens w (w.receiveTask p tokens body) := by
  have hg := grows_acceptAll w p tokens
  have hs := silent_acceptAll w p tokens
  unfold receiveTask
  rcases ha : w.acceptAll p tokens with ⟨⟨accepted, _ | _⟩, w₂⟩ <;> rw [ha] at hg hs
  · exact ⟨hg.trans (grows_tellAll w₂ accepted), hs.trans (silent_tellAll w₂ accepted)⟩
  · exact ⟨hg.trans (.of_instances rfl), hs.trans (silent_enqueue w₂ _)⟩

theorem Uniform.receiveTask (hu : Uniform w) {tokens : List Token}
    (ht : ∀ t ∈ tokens, w.HasKind t.id t.kind) (p : PlaceId) (body : β) :
    Uniform (w.receiveTask p tokens body) := by
  have hu' := hu.silent (grows_acceptAll w p tokens) (silent_acceptAll w p tokens) ht
    fun x hx => .inl ((still_acceptAll w p tokens).net ▸ hx)
  unfold World.receiveTask
  rcases ha : w.acceptAll p tokens with ⟨⟨accepted, _ | _⟩, w₂⟩ <;> rw [ha] at hu'
  · exact hu'.tellAll accepted
  · exact hu'.congr ⟨rfl, rfl⟩ rfl fun x hx => .inl hx

/-- A root keeps what is reported to it, and nothing is lost. -/
theorem Effect.of_root (hn : Notes w w' r i j f [f]) (hr : i.remoteId? = none)
    (hrep : g'.reported = g.reported ++ [⟨r, p, f⟩]) (hlost : g'.lost = g.lost) : Effect w g w' g' := by
  refine .noted r i j f _ p hn hrep (fun _ => rfl) fun id q hq => ?_
  have haway : ¬ (w.idOf? r = some id ∧ w.placeOf? r = some q) := by
    rw [idOf?_eq hn.old, placeOf?_eq hn.old]
    rintro ⟨hid, hp⟩
    exact hq ((Option.some.inj hp).symm.trans (Instance.remoteId?_eq_none.mp hr id hid).symm)
  rw [if_neg haway, List.append_nil, hlost]

/-- A message that arrives brings a failure to a root, or none. -/
theorem effect_arrival {pk : Packet (Message β)} (ho : Orderly w) (g : Ledger β) (hu : Uniform w)
    (hpk : w.Posted pk)
    (ht : ∀ tokens body, pk.content = .handOff tokens body → ∀ t ∈ tokens, w.HasKind t.id t.kind) :
    ∃ w₁, Effect w g w₁ (w.afterArrival g pk) ∧ Uniform w₁ ∧
      Counts w₁ (w.receive pk.dest pk.content) := by
  obtain ⟨sender, dest, m⟩ := pk
  have hrefl : ∀ {g'}, g'.reported = g.reported → g'.lost = g.lost → Effect w g w g' :=
    fun hrep hlost => .quiet (.of_instances rfl rfl hrep hlost)
  unfold receive afterArrival
  cases hs : w.site? dest with
  | none => exact ⟨w, hrefl rfl rfl, hu, .refl w⟩
  | some site =>
    have hct : ∀ w₁ : World Pairwise β, Counts w₁
        (w₁.modifySite dest fun site => { site with stats := site.stats.deliver }) := fun w₁ =>
      counts_modifySite w₁ dest Stats.deliver
    cases m with
    | handOff tokens body =>
      obtain ⟨hg, hs⟩ := silent_receiveTask w dest tokens body
      exact ⟨_, .quiet (.of_silent hg hs rfl rfl), hu.receiveTask (ht tokens body rfl) dest body, hct _⟩
    | report id deltas =>
      have hg := grows_receiveReport w dest id deltas
      have hs := silent_receiveReport (l := []) w dest id deltas
      have hst := still_receiveReport w dest id deltas
      exact ⟨_, .quiet (.of_silent hg hs rfl rfl),
        hu.silent hg hs nofun fun x hx => .inl (hst.net ▸ hx), hct _⟩
    | failure id payload =>
      cases hl : w.lookup dest id with
      | error e =>
        simp only [deliverFailure, hl]
        exact ⟨w, hrefl rfl rfl, hu, hct w⟩
      | ok r =>
        obtain ⟨i, hi, hr⟩ := ho.root_of_lookup (hpk.2 id rfl) hl
        obtain ⟨j, hn⟩ := notes_deliverFailure (ho.built r i hi) hi hr hl payload
        obtain ⟨-, -, -, hnet⟩ := changes_deliverFailure hi hr hl payload
        simp only [hl]
        exact ⟨_, .of_root hn hr rfl rfl, hu.notes hn fun x hx => .inl (hnet ▸ hx), hct _⟩

theorem effect_deliver (ho : Orderly w) (g : Ledger β) (hu : Uniform w) {lane : Lane}
    (hw : w.deliver lane = some w') : Effect w g w' (w.afterDelivery g lane) ∧ Uniform w' := by
  unfold World.deliver at hw
  unfold afterDelivery
  cases ht : Network.take w.net lane with
  | none =>
    rw [ht] at hw
    cases hw
  | some out =>
    obtain ⟨pk, net⟩ := out
    rw [ht] at hw
    obtain ⟨hm, hpk⟩ := moved_take ho ht
    obtain ⟨before, after, hp, hnet, -⟩ := take_spec ht
    simp only [hnet, Option.some.injEq] at hw hm hpk ⊢
    subst hw
    have hu₀ : Uniform (w.withPackets (before ++ after)) :=
      hu.congr ⟨rfl, rfl⟩ rfl fun x hx => .inl (by
        rw [hp]
        rcases List.mem_append.mp hx with hx | hx <;> simp [hx])
    obtain ⟨w₁, he, hu₁, hct⟩ := effect_arrival (hm.orderly ho) g hu₀ hpk
      (hu.tokens pk (hp ▸ List.mem_append_right _ (List.mem_cons_self ..)))
    refine ⟨he.within hct, hu₁.congr (steady_of_alike hct.toAlike).toNamesakes (kindOf?_counts hct) ?_⟩
    exact fun x hx => .inl (hct.toStill.net ▸ hx)

/-! ### What is recorded -/

/-- The instance is at the place, and its failures are retained there. -/
def retains (w : World Pairwise β) (p : PlaceId) (s : Serial) : Bool :=
  (w.instance? s).any fun i => i.place = p && i.kind.retains

/-- The failures recorded at a place, each with its instance: those that were dumped there, and those
that are retained. -/
def recorded (w : World Pairwise β) (dumped : List (PlaceId × Diagnostics.Entry)) (p : PlaceId) :
    List (Serial × Failure) :=
  Diagnostics.listed ((dumped.filter (·.1 = p)).map (·.2) ++ w.retained p)

/-- What is recorded for an instance is what was reported to it, if its kind is one that retains. -/
structure Recorded (w : World Pairwise β) (dumped : List (PlaceId × Diagnostics.Entry))
    (g : Ledger β) : Prop where
  single : ∀ p, ((w.retained p).map (·.serial)).Nodup
  exact : ∀ p s, (w.recorded dumped p).filter (·.1 = s) = if w.retains p s then g.reportsTo s else []

variable {dumped : List (PlaceId × Diagnostics.Entry)}

theorem retains_eq (hi : w.instance? s = some i) (p : PlaceId) :
    w.retains p s = (i.place = p && i.kind.retains) := by simp [retains, hi]

theorem retains_iff : w.retains p s = true ↔
    ∃ i, w.instance? s = some i ∧ i.place = p ∧ i.kind.retains = true := by
  unfold retains
  cases w.instance? s <;> simp

/-- Failures were reported to instances that are there. -/
def Addressees (w : World Pairwise β) (g : Ledger β) : Prop :=
  ∀ e ∈ g.reported, (w.placeOf? e.scope).isSome

theorem reportsTo_new (h : Addressees w g) (hs : w.instance? s = none) : g.reportsTo s = [] := by
  unfold Ledger.reportsTo
  rw [List.filter_eq_nil_iff.mpr fun e he => ?_, List.map_nil]
  have hp := h e he
  simp only [decide_eq_true_eq]
  rintro rfl
  rw [placeOf?, hs] at hp
  cases hp

theorem reportsTo_append {e : Entry} (h : g'.reported = g.reported ++ [e]) (s : Serial) :
    g'.reportsTo s = g.reportsTo s ++ if s = e.scope then [(e.scope, e.failure)] else [] := by
  unfold Ledger.reportsTo
  rw [h, List.filter_append, List.map_append]
  by_cases hs : s = e.scope
  · simp [hs]
  · simp [hs, Ne.symm hs]

theorem reportsTo_congr (h : g'.reported = g.reported) (s : Serial) : g'.reportsTo s = g.reportsTo s := by
  rw [Ledger.reportsTo, Ledger.reportsTo, h]

/-- What is delivered is reported to roots only. -/
theorem reportsTo_deliver (ho : Orderly w) (g : Ledger β) {lane : Lane} (hs : ¬ w.IsRoot s) :
    (w.afterDelivery g lane).reportsTo s = g.reportsTo s := by
  unfold afterDelivery
  split
  · rfl
  · rename_i pk net ht
    obtain ⟨hm, hpk⟩ := moved_take ho ht
    unfold afterArrival
    split
    · rfl
    · split
      · rfl
      · rfl
      · rename_i id payload hc
        split
        · rfl
        · rename_i r hl
          have hr : ({ w with net } : World Pairwise β).IsRoot r :=
            (hm.orderly ho).root_of_lookup (hpk.2 id (by rw [hc]; rfl)) hl
          rw [reportsTo_append rfl, if_neg fun hsr => hs (by rw [hsr]; exact hr), List.append_nil]

/-- No failure is reported to an instance that is not there. -/
theorem Effect.addressees (h : Effect w g w' g') (hm : Addressees w g) : Addressees w' g' := by
  intro e he
  cases h with
  | quiet hq =>
    obtain ⟨p, hp⟩ := Option.isSome_iff_exists.mp (hm e (hq.reported ▸ he))
    rw [hq.grows.placeOf? hp]
    rfl
  | noted s i j f kept p hn hrep _ _ =>
    rw [hn.steady.toNamesakes.places]
    rw [hrep] at he
    rcases List.mem_append.mp he with he | he
    · exact hm e he
    · rw [List.mem_singleton.mp he, placeOf?_eq hn.old]
      rfl

theorem Recorded.quiet (h : Recorded w dumped g) (hm : Addressees w g)
    (hret : w'.retained = w.retained) (hrep : g'.reported = g.reported)
    (hold : ∀ s i, w.instance? s = some i → ∃ j, w'.instance? s = some j ∧ j.place = i.place ∧
      j.kind = i.kind) : Recorded w' dumped g' := by
  refine ⟨fun p => hret ▸ h.single p, fun p s => ?_⟩
  have hx := h.exact p s
  unfold World.recorded at hx ⊢
  rw [hret, hx, reportsTo_congr hrep]
  cases hi : w.instance? s with
  | none => rw [reportsTo_new hm hi, ite_self, ite_self]
  | some i =>
    obtain ⟨j, hj, hp, hk⟩ := hold s i hi
    rw [retains_eq hi, retains_eq hj, hp, hk]

theorem Recorded.notes {kept : List Failure} (h : Recorded w dumped g) (hn : Notes w w' s i j f kept)
    (hrep : g'.reported = g.reported ++ [⟨s, q, f⟩]) : Recorded w' dumped g' := by
  refine ⟨fun p => ?_, fun p t => ?_⟩
  · rw [hn.retained]
    split_ifs
    · exact Diagnostics.nodup_recordIn (h.single p) _ _ _
    · exact h.single p
  · have hx := h.exact p t
    have hsame : w'.retains p t = w.retains p t := by
      unfold retains
      rw [hn.new]
      split_ifs with hts
      · rw [hts, hn.old]
        simp [hn.place, hn.kind]
      · rfl
    have hs : w.retains p s = true ↔ p = i.place ∧ i.kind.retains := by
      rw [retains_eq hn.old, Bool.and_eq_true, decide_eq_true_eq, eq_comm (a := i.place)]
    unfold World.recorded at hx ⊢
    rw [Diagnostics.listed_append, List.filter_append] at hx ⊢
    rw [hsame, reportsTo_append hrep, hn.retained]
    by_cases hp : p = i.place ∧ i.kind.retains
    · rw [if_pos hp, Diagnostics.listed_recordIn (h.single p), ← List.append_assoc, hx]
      by_cases hts : t = s
      · subst hts
        simp [hs.mpr hp]
      · simp [hts]
    · rw [if_neg hp, hx]
      by_cases hts : t = s
      · subst hts
        rw [show w.retains p t = false by simpa using hs.not.mpr hp]
        simp
      · simp [hts]

theorem retained_leave (w : World Pairwise β) (s : Serial) : (w.leave s).2.retained = w.retained := by
  have he : (w.exit s).retained = w.retained := by
    unfold World.exit World.unbind
    split
    · rfl
    · split
      · rfl
      · exact retained_modifySite w _ _ fun _ => rfl
  unfold World.leave World.takeExceptions
  dsimp only
  split
  · exact he
  · exact he

/-- What is dumped is what was retained. -/
theorem dump_eq (w : World Pairwise β) (p : PlaceId) : (w.dump p).1 = w.retained p ∧
    ∀ q, (w.dump p).2.retained q = if q = p then [] else w.retained q := by
  unfold World.dump World.retained
  cases hs : w.site? p with
  | none =>
    refine ⟨rfl, fun q => ?_⟩
    split_ifs with hq
    · simp [hq, hs]
    · rfl
  | some site =>
    refine ⟨rfl, fun q => ?_⟩
    simp only [site?_modifySite, hs]
    split_ifs <;> rfl

theorem alike_dump (w : World Pairwise β) (p : PlaceId) : Alike w (w.dump p).2 := by
  unfold World.dump
  cases w.site? p with
  | none => exact .refl w
  | some site => exact alike_modifySite w p _ fun _ => rfl

theorem still_dump (w : World Pairwise β) (p : PlaceId) : Still w (w.dump p).2 := by
  unfold World.dump
  cases w.site? p with
  | none => exact .refl w
  | some site => exact still_modifySite w p _

/-- Dumping changes nothing of what is recorded. -/
theorem Recorded.dump (h : Recorded w dumped g) (p : PlaceId) :
    Recorded (w.dump p).2 (dumped ++ (w.dump p).1.map fun e => (p, e)) g := by
  obtain ⟨h1, h2⟩ := dump_eq w p
  have hi := (alike_dump w p).instance?
  refine ⟨fun q => ?_, fun q s => ?_⟩
  · rw [h2]
    split_ifs
    · exact List.nodup_nil
    · exact h.single q
  · have hret : (w.dump p).2.retains q s = w.retains q s := by
      unfold retains
      rw [hi]
    rw [hret, ← h.exact q s]
    unfold World.recorded
    rw [h1, h2, List.filter_append, List.map_append]
    split_ifs with hq
    · subst hq
      simp [List.filter_map, Function.comp_def]
    · simp [List.filter_map, Function.comp_def, Ne.symm hq]

/-! ### What instances keep -/

/-- The failures that instances have kept, some of which have been handed out. Those of a root are all
that was reported to it, those of another instance are lost to the root. -/
structure Collected (w : World Pairwise β) (handed : List (Serial × Failure)) (g : Ledger β)
    (kept : List (Serial × Failure)) : Prop where
  held : ∀ s i, w.instance? s = some i →
    (handed.filter (·.1 = s)).map (·.2) ++ i.exceptions = (kept.filter (·.1 = s)).map (·.2)
  root : ∀ r, w.IsRoot r → kept.filter (·.1 = r) = g.reportsTo r
  lost : ∀ id p, p ≠ id.home → failuresFrom id p g.lost =
    (kept.filter fun e => w.idOf? e.1 = some id ∧ w.placeOf? e.1 = some p).map fun e =>
      e.2.relayed id.home
  made : ∀ e ∈ kept, (w.placeOf? e.1).isSome
  handed : ∀ e ∈ handed, w.IsRoot e.1

variable {handed kept : List (Serial × Failure)}

theorem filter_of_made (h : ∀ e ∈ kept, (w.placeOf? e.1).isSome) (hs : w.instance? s = none) :
    kept.filter (·.1 = s) = [] := by
  refine List.filter_eq_nil_iff.mpr fun e he => ?_
  simp only [decide_eq_true_eq]
  rintro rfl
  have hp := h e he
  rw [placeOf?, hs] at hp
  cases hp

theorem isRoot_iff : w.IsRoot s ↔ ∃ p, w.placeOf? s = some p ∧ ∀ id, w.idOf? s = some id → id.home = p := by
  constructor
  · rintro ⟨i, hi, hr⟩
    exact ⟨i.place, placeOf?_eq hi, fun id hid =>
      Instance.remoteId?_eq_none.mp hr id (by rw [← idOf?_eq hi, hid])⟩
  · rintro ⟨p, hp, hr⟩
    obtain ⟨i, hi, rfl⟩ := Option.map_eq_some_iff.mp hp
    exact ⟨i, hi, Instance.remoteId?_eq_none.mpr fun id hid => hr id (by rw [idOf?_eq hi, hid])⟩

theorem Namesakes.isRoot (h : Namesakes w w') : w'.IsRoot = w.IsRoot := by
  funext s
  rw [eq_iff_iff, isRoot_iff, isRoot_iff, h.ids, h.places]

/-- An instance away from home stays away from home. -/
theorem Grows.isRoot_of (hg : Grows w w') (hi : w.instance? s = some i) (h : w'.IsRoot s) :
    w.IsRoot s := by
  obtain ⟨j, hj, hr⟩ := h
  obtain ⟨j', hj', hp, -, hid⟩ := hg.old s i hi
  obtain rfl := Option.some.inj (hj.symm.trans hj')
  refine ⟨i, hi, ?_⟩
  rcases hid with hid | ⟨hn, -⟩
  · rw [← hr, Instance.remoteId?_congr hp hid]
  · exact Instance.remoteId?_eq_none.mpr fun id hid => by
      rw [hn] at hid
      cases hid

/-- An identity that an instance gets is homed at its place. -/
theorem Grows.sits_iff (hg : Grows w w') (hi : w.instance? s = some i) (hp : p ≠ id.home) :
    (w'.idOf? s = some id ∧ w'.placeOf? s = some p) ↔ (w.idOf? s = some id ∧ w.placeOf? s = some p) := by
  refine ⟨fun ⟨hid, hpl⟩ => ?_, fun ⟨hid, hpl⟩ => ⟨hg.idOf? hid, hg.placeOf? hpl⟩⟩
  have hsame : w.idOf? s = some id := by
    by_contra hne
    have hhome := hg.home (by rw [hi]; rfl) hne hid
    rw [hpl] at hhome
    exact hp (Option.some.inj hhome)
  have hold := hg.placeOf? (placeOf?_eq hi)
  rw [hpl] at hold
  exact ⟨hsame, by rw [placeOf?_eq hi, ← hold]⟩

theorem Collected.grow (h : Collected w handed g kept) (hm : Addressees w g) (hg : Grows w w')
    (hrep : g'.reported = g.reported)
    (hlost : ∀ id p, failuresFrom id p g'.lost = failuresFrom id p g.lost) :
    Collected w' handed g' kept := by
  refine ⟨fun s j hj => ?_, fun r hr => ?_, fun id p hp => ?_, fun e he => ?_, fun e he => ?_⟩
  · cases hi : w.instance? s with
    | none =>
      have hout : handed.filter (·.1 = s) = [] := filter_of_made (fun e he => by
        obtain ⟨p, hp, -⟩ := isRoot_iff.mp (h.handed e he)
        rw [hp]
        rfl) hi
      rw [hg.new s j hi hj, hout, filter_of_made h.made hi]
      rfl
    | some i =>
      obtain ⟨j', hj', -, he, -⟩ := hg.old s i hi
      obtain rfl := Option.some.inj (hj.symm.trans hj')
      rw [he]
      exact h.held s i hi
  · rw [reportsTo_congr hrep]
    cases hi : w.instance? r with
    | none => rw [filter_of_made h.made hi, reportsTo_new hm hi]
    | some i => exact h.root r (hg.isRoot_of hi hr)
  · rw [hlost, h.lost id p hp]
    refine congrArg _ (List.filter_congr fun e he => ?_)
    obtain ⟨x, hx⟩ := Option.isSome_iff_exists.mp (h.made e he)
    obtain ⟨i, hi, -⟩ := Option.map_eq_some_iff.mp hx
    rw [decide_eq_decide]
    exact (hg.sits_iff hi hp).symm
  · obtain ⟨x, hx⟩ := Option.isSome_iff_exists.mp (h.made e he)
    rw [hg.placeOf? hx]
    rfl
  · exact hg.isRoot (h.handed e he)

theorem Collected.notes {more : List Failure} (h : Collected w handed g kept)
    (hn : Notes w w' s i j f more) (hrep : g'.reported = g.reported ++ [⟨s, q, f⟩])
    (hroot : i.remoteId? = none → more = [f])
    (hlost : ∀ id q, q ≠ id.home → failuresFrom id q g'.lost = failuresFrom id q g.lost ++
      if w.idOf? s = some id ∧ w.placeOf? s = some q then more.map (Failure.relayed id.home) else []) :
    Collected w' handed g' (kept ++ more.map fun f => (s, f)) := by
  have hst := hn.steady.toNamesakes
  have hmore : ∀ t, (more.map fun f => (s, f)).filter (·.1 = t) =
      if t = s then more.map fun f => (s, f) else [] := by
    intro t
    by_cases hts : t = s
    · simp [hts, List.filter_map, Function.comp_def]
    · simp [hts, List.filter_map, Function.comp_def, Ne.symm hts]
  refine ⟨fun t x hx => ?_, fun r hr => ?_, fun id p hp => ?_, fun e he => ?_, fun e he => ?_⟩
  · rw [List.filter_append, List.map_append, hmore]
    rw [hn.new] at hx
    by_cases hts : t = s
    · subst hts
      rw [if_pos rfl] at hx
      cases hx
      rw [if_pos rfl, hn.exceptions, ← List.append_assoc, h.held t i hn.old]
      simp [Function.comp_def]
    · rw [if_neg hts] at hx
      rw [if_neg hts, List.map_nil, List.append_nil]
      exact h.held t x hx
  · rw [hst.isRoot] at hr
    rw [List.filter_append, hmore, reportsTo_append hrep, h.root r hr]
    by_cases hrs : r = s
    · subst hrs
      obtain ⟨x, hx, hxr⟩ := hr
      obtain rfl := Option.some.inj (hn.old.symm.trans hx)
      rw [hroot hxr]
      rfl
    · rw [if_neg hrs, if_neg hrs]
  · rw [hlost id p hp, h.lost id p hp, List.filter_append, List.map_append, hst.ids, hst.places]
    congr 1
    split_ifs with hs
    · rw [List.filter_eq_self.mpr fun e he => ?_, List.map_map]
      · rfl
      · obtain ⟨f, -, rfl⟩ := List.mem_map.mp he
        simpa using hs
    · rw [List.filter_eq_nil_iff.mpr fun e he => ?_, List.map_nil]
      obtain ⟨f, -, rfl⟩ := List.mem_map.mp he
      simpa using hs
  · rw [hst.places]
    rcases List.mem_append.mp he with he | he
    · exact h.made e he
    · obtain ⟨f, -, rfl⟩ := List.mem_map.mp he
      rw [placeOf?_eq hn.old]
      rfl
  · rw [hst.isRoot]
    exact h.handed e he

/-- The owner of a scope that leaves is handed what the root has kept. -/
theorem Collected.leave (h : Collected w handed g kept) (hi : w.instance? r = some i)
    (hr : i.remoteId? = none) (hrep : g'.reported = g.reported) (hlost : g'.lost = g.lost) :
    Collected (w.leave r).2 (handed ++ i.exceptions.map fun f => (r, f)) g' kept := by
  obtain ⟨-, -, hinst, -⟩ := leave_spec hi
  have hn : Namesakes w (w.leave r).2 := namesakes_of_set hi hinst rfl rfl
  refine ⟨fun t x hx => ?_, fun t ht => ?_, fun id p hp => ?_, fun e he => ?_, fun e he => ?_⟩
  · rw [List.filter_append, List.map_append]
    have hx' : (if t = r then some { i with exceptions := [] } else w.instance? t) = some x :=
      (hinst t).symm.trans hx
    by_cases htr : t = r
    · subst htr
      rw [if_pos rfl] at hx'
      cases hx'
      rw [← h.held t i hi]
      simp [List.filter_map, Function.comp_def]
    · rw [if_neg htr] at hx'
      rw [← h.held t x hx']
      simp [List.filter_map, Function.comp_def, Ne.symm htr]
  · rw [reportsTo_congr hrep]
    exact h.root t (hn.isRoot ▸ ht)
  · rw [hlost, hn.ids, hn.places]
    exact h.lost id p hp
  · rw [hn.places]
    exact h.made e he
  · rw [hn.isRoot]
    rcases List.mem_append.mp he with he | he
    · exact h.handed e he
    · obtain ⟨f, -, rfl⟩ := List.mem_map.mp he
      exact ⟨i, hi, hr⟩

end Effects

end World

end Quiescence
