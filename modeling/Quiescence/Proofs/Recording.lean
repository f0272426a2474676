/-
# What the diagnostics of a place record

An operation is silent (`Silent`) if the diagnostics of all places retain what
they did, and the instances keep their kinds and identities; instances that it
makes are named by tokens, and have their kinds. All operations are silent but
those that report a failure, and these note it for one instance (`Notes`).

A kind travels in tokens, from the root of a scope to its other instances: so all
have the kind of the root (`Uniform`).
-/
import Quiescence.Proofs.Bodies
import Quiescence.Proofs.Diagnostics

namespace Quiescence

namespace World

section Silence

variable {ν : Type → Type} {β : Type} {w w' w'' : World ν β} {s : Serial} {i j : Instance}
  {p target : PlaceId} {fs : List Serial} {tok : Token} {l l' tokens : List Token}

/-- The entries that the diagnostics of a place retain. -/
def retained (w : World ν β) (p : PlaceId) : List Diagnostics.Entry :=
  ((w.site? p).map (·.diagnostics)).elim [] (·.entries)

def kindOf? (w : World ν β) (s : Serial) : Option ScopeKind := (w.instance? s).map (·.kind)

theorem kindOf?_eq (hi : w.instance? s = some i) : w.kindOf? s = some i.kind := by
  simp [kindOf?, hi]

/-- Nothing is recorded, and every instance keeps its kind and its identity. Those that are new are
named by some tokens. -/
structure Silent (l : List Token) (w w' : World ν β) : Prop where
  retained : w'.retained = w.retained
  old : ∀ s i, w.instance? s = some i → ∃ j, w'.instance? s = some j ∧ j.kind = i.kind ∧
    ∀ id, i.id = some id → j.id = some id
  new : ∀ s j, w.instance? s = none → w'.instance? s = some j →
    ∃ t ∈ l, j.id = some t.id ∧ j.kind = t.kind

namespace Silent

theorem of_instances (hr : w'.retained = w.retained) (hi : w'.instance? = w.instance?) :
    Silent l w w' := by
  refine ⟨hr, fun s i hs => ⟨i, by rw [hi, hs], rfl, fun _ h => h⟩, fun s j hn hs => ?_⟩
  rw [hi, hn] at hs
  cases hs

theorem refl (w : World ν β) : Silent l w w := of_instances rfl rfl

theorem trans (h : Silent l w w') (h' : Silent l w' w'') : Silent l w w'' := by
  refine ⟨h'.retained.trans h.retained, fun s i hs => ?_, fun s k hn hs => ?_⟩
  · obtain ⟨j, hj, hk, hid⟩ := h.old s i hs
    obtain ⟨k, hs', hk', hid'⟩ := h'.old s j hj
    exact ⟨k, hs', hk'.trans hk, fun id hx => hid' id (hid id hx)⟩
  · cases hj : w'.instance? s with
    | none => exact h'.new s k hj hs
    | some j =>
      obtain ⟨t, ht, hid, hk⟩ := h.new s j hn hj
      obtain ⟨k', hs', hk', hid'⟩ := h'.old s j hj
      obtain rfl := Option.some.inj (hs.symm.trans hs')
      exact ⟨t, ht, hid' _ hid, hk'.trans hk⟩

theorem mono (h : Silent l w w') (ht : ∀ t ∈ l, t ∈ l') : Silent l' w w' := by
  refine ⟨h.retained, h.old, fun s j hn hs => ?_⟩
  obtain ⟨t, hm, hx⟩ := h.new s j hn hs
  exact ⟨t, ht t hm, hx⟩

theorem kindOf? {k : ScopeKind} (h : Silent l w w') (hs : w.kindOf? s = some k) :
    w'.kindOf? s = some k := by
  obtain ⟨i, hi, rfl⟩ := Option.map_eq_some_iff.mp hs
  obtain ⟨j, hj, hk, -⟩ := h.old s i hi
  rw [kindOf?_eq hj, hk]

end Silent

theorem retained_modifySite (w : World ν β) (p : PlaceId) (f : Site → Site)
    (hf : ∀ site, (f site).diagnostics = site.diagnostics) :
    (w.modifySite p f).retained = w.retained := by
  funext q
  unfold retained
  rw [site?_modifySite]
  split_ifs with hq
  · subst hq
    cases w.site? q <;> simp [hf]
  · rfl

theorem silent_modifySite (w : World ν β) (p : PlaceId) (f : Site → Site)
    (hf : ∀ site, (f site).diagnostics = site.diagnostics) : Silent l w (w.modifySite p f) :=
  .of_instances (retained_modifySite w p f hf) rfl

theorem silent_modifyIdentities (w : World ν β) (p : PlaceId)
    (f : Registry Binding → Registry Binding) : Silent l w (w.modifyIdentities p f) :=
  silent_modifySite w p _ fun _ => rfl

theorem silent_setInstance (hi : w.instance? s = some i) (hk : j.kind = i.kind)
    (hid : ∀ id, i.id = some id → j.id = some id) : Silent l w (w.setInstance s j) := by
  refine ⟨rfl, fun t x hx => ?_, fun t x hn hx => ?_⟩
  · by_cases hts : t = s
    · subst hts
      obtain rfl := Option.some.inj (hi.symm.trans hx)
      exact ⟨j, by rw [instance?_setInstance hi, if_pos rfl], hk, hid⟩
    · exact ⟨x, by rw [instance?_setInstance hi, if_neg hts, hx], rfl, fun _ h => h⟩
  · rw [instance?_setInstance hi] at hx
    split_ifs at hx with hts
    · rw [hts, hi] at hn
      cases hn
    · rw [hn] at hx
      cases hx

theorem silent_submit (w : World ν β) (s : Serial) : Silent l w (w.submit s).2 := by
  unfold World.submit
  split
  · exact .refl w
  · rename_i i hi
    split
    · exact .refl w
    · dsimp only
      have hset : ∀ c b, Silent l w (w.setInstance s { i with counters := c, bound := b }) :=
        fun _ _ => silent_setInstance hi rfl fun _ h => h
      split_ifs
      · exact hset _ _
      · split
        · exact .refl w
        · dsimp only
          exact (hset _ _).trans (silent_modifyIdentities _ _ _)

theorem silent_submitAll (w : World ν β) (fs : List Serial) : Silent l w (w.submitAll fs) :=
  List.foldlRecOn fs _ (.refl w) fun _ h s _ => h.trans (silent_submit _ s)

theorem silent_enqueue (w : World ν β) (job : Job β) : Silent l w (w.enqueue job) :=
  .of_instances (retained_modifySite w _ _ fun _ => rfl) rfl

variable [Network ν]

theorem silent_send {sender dest : PlaceId} {m : Message β} (h : w.send sender dest m = .ok w') :
    Silent l w w' := by
  unfold World.send at h
  split at h
  · cases h
    exact .of_instances rfl rfl
  · cases h

theorem silent_spawn (w : World ν β) (s : Serial) (target : PlaceId) :
    Silent l w (w.spawn s target) := by
  unfold World.spawn
  split
  · exact .refl w
  · rename_i i hi
    split <;> exact silent_setInstance hi rfl fun _ h => h

theorem silent_unspawn (w : World ν β) (s : Serial) (target : PlaceId) :
    Silent l w (w.unspawn s target) := by
  unfold World.unspawn
  split
  · exact .refl w
  · rename_i i hi
    split <;> exact silent_setInstance hi rfl fun _ h => h

theorem silent_update (w : World ν β) (s : Serial) (deltas : List Int) :
    Silent l w (w.update s deltas) := by
  cases hi : w.instance? s with
  | none =>
    rw [show w.update s deltas = w by simp [World.update, hi]]
    exact .refl w
  | some i =>
    rw [update_eq hi]
    exact silent_setInstance hi rfl fun _ h => h

theorem silent_tell (w : World ν β) (s : Serial) : Silent l w (w.tell s) := by
  unfold World.tell World.report
  split
  · exact .refl w
  · rename_i i hi
    have hset : ∀ c b, Silent l w (w.setInstance s { i with counters := c, bound := b }) :=
      fun _ _ => silent_setInstance hi rfl fun _ h => h
    split
    · split
      · exact silent_setInstance hi rfl fun _ h => h
      · dsimp only [World.unbind]
        split
        · exact ((hset _ _).trans (silent_send ‹_›)).trans (silent_modifyIdentities _ _ _)
        · exact (hset _ _).trans (silent_modifyIdentities _ _ _)
    · exact silent_setInstance hi rfl fun _ h => h

theorem silent_tellAll (w : World ν β) (fs : List Serial) : Silent l w (w.tellAll fs) :=
  List.foldlRecOn fs _ (.refl w) fun _ h s _ => h.trans (silent_tell _ s)

theorem silent_prepareTransfer (w : World ν β) (s : Serial) :
    Silent l w (w.prepareTransfer s).2 := by
  unfold World.prepareTransfer
  split
  · exact .refl w
  · rename_i i hi
    split
    · exact .refl w
    · rename_i hid
      split
      · exact .refl w
      · split
        · exact .refl w
        · dsimp only
          refine Silent.trans ?_ (silent_modifyIdentities _ _ _)
          refine silent_setInstance hi rfl fun id hx => ?_
          rw [hid] at hx
          cases hx

/-- An instance that is made has the identity and the kind of the token. -/
theorem silent_resolve (w : World ν β) (tok : Token) (p : PlaceId) :
    Silent [tok] w (w.resolve tok p).2 := by
  cases hb : w.bound? p tok.id with
  | some b =>
    cases b with
    | scope s =>
      rw [resolve_bound hb]
      exact .refl w
    | foreign =>
      rw [resolve_foreign hb]
      exact .refl w
  | none =>
    by_cases hp : tok.id.home = p
    · rw [resolve_missing hb hp]
      exact .refl w
    · rw [resolve_fresh hb hp]
      dsimp only
      refine Silent.trans ?_ (silent_modifyIdentities _ _ _)
      refine ⟨rfl, fun s i hi => ⟨i, ?_, rfl, fun _ h => h⟩, fun s j hn hs => ?_⟩
      · rw [instance?_addInstance, if_neg (Nat.ne_of_lt (serial_lt hi)), hi]
      · rw [instance?_addInstance] at hs
        split_ifs at hs
        · cases hs
          exact ⟨tok, List.mem_singleton_self _, rfl, rfl⟩
        · rw [hn] at hs
          cases hs

theorem silent_accept (w : World ν β) (tok : Token) (p : PlaceId) :
    Silent [tok] w (w.accept tok p).2 := by
  have h := silent_resolve w tok p
  rcases hr : w.resolve tok p with ⟨_ | s, w₁⟩ <;> rw [hr] at h <;> simp only [World.accept, hr]
  · exact h
  · exact h.trans (silent_submit w₁ s)

theorem silent_acceptAll (w : World ν β) (p : PlaceId) (tokens : List Token) :
    Silent tokens w (w.acceptAll p tokens).2 := by
  induction tokens generalizing w with
  | nil => exact .refl w
  | cons tok tokens ih =>
    have h : Silent (tok :: tokens) w (w.accept tok p).2 := (silent_accept w tok p).mono (by simp)
    simp only [World.acceptAll]
    rcases hr : w.accept tok p with ⟨_ | s, w₁⟩ <;> rw [hr] at h
    · exact h
    · exact h.trans ((ih w₁).mono fun t ht => List.mem_cons_of_mem _ ht)

theorem silent_spawnAll (w : World ν β) (fs : List Serial) (target : PlaceId) :
    Silent l w (w.spawnAll fs target) :=
  List.foldlRecOn fs _ (.refl w) fun _ h s _ => h.trans (silent_spawn _ s target)

theorem silent_unspawnAll (w : World ν β) (fs : List Serial) (target : PlaceId) :
    Silent l w (w.unspawnAll fs target) :=
  List.foldlRecOn fs _ (.refl w) fun _ h s _ => h.trans (silent_unspawn _ s target)

theorem silent_prepareAll (w : World ν β) (fs : List Serial) : Silent l w (w.prepareAll fs).2 := by
  induction fs generalizing w with
  | nil => exact .refl w
  | cons s fs ih =>
    have h := silent_prepareTransfer (l := l) w s
    simp only [World.prepareAll]
    rcases hr : w.prepareTransfer s with ⟨_ | tok, w₁⟩ <;> rw [hr] at h
    · exact h
    · have h' := h.trans (ih w₁)
      simp only
      rcases hr' : w₁.prepareAll fs with ⟨_ | l, w₂⟩ <;> rw [hr'] at h' <;> exact h'

theorem silent_receiveReport (w : World ν β) (p : PlaceId) (id : GlobalId) (deltas : List Int) :
    Silent l w (w.receiveReport p id deltas) := by
  unfold receiveReport
  split
  · exact .refl w
  · exact silent_update w _ deltas

theorem silent_spawnAt (w : World ν β) (task : Task β) (p target : PlaceId) :
    Silent l w (w.spawnAt task p target).2 := by
  unfold World.spawnAt
  split_ifs
  · exact ((silent_spawnAll w _ p).trans (silent_submitAll _ _)).trans (silent_enqueue _ _)
  · have h0 := silent_prepareAll (l := l) w task.finishes
    rcases hr : w.prepareAll task.finishes with ⟨_ | tokens, w₁⟩ <;> rw [hr] at h0
    · exact h0
    · have h1 := h0.trans (silent_spawnAll w₁ task.finishes target)
      dsimp only
      split
      · exact h1.trans (silent_send ‹_›)
      · exact h1.trans (silent_unspawnAll _ _ _)

/-! ### Tokens that are given -/

/-- A token that an instance gives has its identity and its kind. -/
theorem token_prepareTransfer {tok : Token} (h : (w.prepareTransfer s).1 = .ok tok) :
    ∃ i, (w.prepareTransfer s).2.instance? s = some i ∧ i.id = some tok.id ∧ i.kind = tok.kind := by
  unfold World.prepareTransfer at h ⊢
  cases hi : w.instance? s with
  | none =>
    rw [hi] at h
    cases h
  | some i =>
    simp only [hi] at h ⊢
    cases hid : i.id with
    | some id =>
      rw [hid] at h
      cases h
      exact ⟨i, hi, hid, rfl⟩
    | none =>
      simp only [hid] at h ⊢
      split at h
      · cases h
      · split at h
        · cases h
        · cases h
          exact ⟨_, (instance?_setInstance hi _ s).trans (if_pos rfl), rfl, rfl⟩

theorem token_prepareAll (h : (w.prepareAll fs).1 = .ok tokens) : ∀ tok ∈ tokens,
    ∃ s i, (w.prepareAll fs).2.instance? s = some i ∧ i.id = some tok.id ∧ i.kind = tok.kind := by
  induction fs generalizing w tokens with
  | nil =>
    cases h
    simp
  | cons s fs ih =>
    simp only [World.prepareAll] at h ⊢
    have h0 := @token_prepareTransfer _ _ w s _
    rcases hr : w.prepareTransfer s with ⟨_ | tok, w₁⟩ <;> rw [hr] at h0 <;> simp only [hr] at h ⊢
    · cases h
    · have h1 := silent_prepareAll (l := []) w₁ fs
      have h2 := @ih w₁
      rcases hr' : w₁.prepareAll fs with ⟨_ | l, w₂⟩ <;> rw [hr'] at h1 h2 <;> simp only [hr'] at h ⊢
      · cases h
      · cases h
        intro t ht
        rcases List.mem_cons.mp ht with rfl | ht
        · obtain ⟨i, hi, hid, hk⟩ := h0 rfl
          obtain ⟨j, hj, hjk, hjid⟩ := h1.old s i hi
          exact ⟨s, j, hj, hjid _ hid, hjk.trans hk⟩
        · exact h2 rfl t ht

end Silence

section Noting

variable {β : Type} {w w' : World Pairwise β} {g g' : Ledger β} {r s : Serial} {i j : Instance}
  {p q : PlaceId} {id : GlobalId} {f : Failure} {kept : List Failure}

/-- One failure is recorded for an instance, at its place, if its kind is one that retains. The
instance keeps some failures more, and changes in nothing else but its counters. -/
structure Notes (w w' : World Pairwise β) (s : Serial) (i j : Instance) (f : Failure)
    (kept : List Failure) : Prop extends Changes w w' s i j where
  kind : j.kind = i.kind
  exceptions : j.exceptions = i.exceptions ++ kept
  retained : ∀ p, w'.retained p =
    if p = i.place ∧ i.kind.retains then Diagnostics.recordIn s (i.label s) f (w.retained p)
    else w.retained p

/-- The kinds of instances do not change. -/
theorem Notes.kinds (h : Notes w w' s i j f kept) : w'.kindOf? = w.kindOf? := by
  funext t
  unfold World.kindOf?
  rw [h.new]
  split_ifs with hts
  · rw [hts, h.old, Option.map_some, Option.map_some, h.kind]
  · rfl

theorem Built.site (h : w.Built p) : ∃ site, w.site? p = some site :=
  Option.ne_none_iff_exists'.mp (site_of_built h)

theorem retained_retain (h : w.Built i.place) (s : Serial) (f : Failure) (p : PlaceId) :
    (w.retain s i f).retained p =
      if p = i.place ∧ i.kind.retains then Diagnostics.recordIn s (i.label s) f (w.retained p)
      else w.retained p := by
  obtain ⟨site, hs⟩ := h.site
  unfold World.retain World.retained
  by_cases hk : i.kind.retains
  · rw [if_pos hk, site?_modifySite]
    by_cases hp : p = i.place
    · subst hp
      simp [hk, hs, Diagnostics.record]
    · simp [hp]
  · simp [hk]

theorem notes_retain (h : w.Built i.place) (hi : w.instance? s = some i) (f : Failure)
    {j : Instance} (hp : j.place = i.place) (hid : j.id = i.id) (hk : j.kind = i.kind)
    (he : j.exceptions = i.exceptions ++ kept) :
    Notes w ((w.retain s i f).setInstance s j) s i j f kept :=
  ⟨changes_retain hi f j hp hid, hk, he, retained_retain h s f⟩

/-- Does an instance keep a failure that is reported to it? At home it does, elsewhere only if the
failure cannot be sent home. -/
def keeps (w : World Pairwise β) (i : Instance) : Bool :=
  i.remoteId?.all fun id => w.net.Refuses id.home

theorem notes_addSuppressed (h : w.Built i.place) (hi : w.instance? s = some i) (f : Failure) :
    ∃ j, Notes w (w.addSuppressed s f) s i j f (if w.keeps i then [f] else []) := by
  cases hr : i.remoteId? with
  | none =>
    rw [addSuppressed_home hi hr, show w.keeps i = true by simp [keeps, hr]]
    exact ⟨_, notes_retain h hi f rfl rfl rfl rfl⟩
  | some id =>
    by_cases hn : w.net.Refuses id.home
    · obtain ⟨e, he⟩ : ∃ e, Network.send w.net ⟨i.place, id.home, .failure id f.encode⟩ = .error e :=
        Pairwise.send_refused hn
      rw [addSuppressed_refused hi hr he, show w.keeps i = true by simp [keeps, hr, hn]]
      exact ⟨_, notes_retain h hi f rfl rfl rfl rfl⟩
    · rw [addSuppressed_sent hi hr (Pairwise.send_accepted hn),
        show w.keeps i = false by simp [keeps, hr, hn]]
      obtain ⟨hch, hk, he, hret⟩ : Notes w ((w.retain s i f).setInstance s
          { i with counters := i.counters.spawnAway id.home w.known }) s i _ f [] :=
        notes_retain h hi f rfl rfl rfl (List.append_nil _).symm
      exact ⟨_, ⟨hch.old, hch.new, hch.tables, hch.place, hch.id⟩, hk, he, hret⟩

/-- A failure that has arrived is noted for the root. -/
theorem notes_deliverFailure (h : w.Built i.place) (hi : w.instance? r = some i)
    (hr : i.remoteId? = none) (hl : w.lookup p id = .ok r) (payload : Wire.Bytes) :
    ∃ j, Notes w (w.deliverFailure p id payload) r i j (.ofDecoded (Failure.decode payload) p)
      [.ofDecoded (Failure.decode payload) p] := by
  generalize hf : Failure.ofDecoded (Failure.decode payload) p = f
  have hw : w.deliverFailure p id payload = (w.addSuppressed r f).tell r := by
    simp only [deliverFailure, hl, submit_home hi hr, hf]
  obtain ⟨j, hn⟩ := notes_addSuppressed h hi f
  rw [show w.keeps i = true by simp [keeps, hr], if_pos rfl] at hn
  have hj : (w.addSuppressed r f).instance? r = some j := by rw [hn.new, if_pos rfl]
  have hjr : j.remoteId? = none := (Instance.remoteId?_congr hn.place hn.id).trans hr
  have hs := silent_tell (l := []) (w.addSuppressed r f) r
  have hset := changes_set hj (j.retire
    (j.counters.tellAtHome j.place (w.addSuppressed r f).known).1.released
    (j.counters.tellAtHome j.place (w.addSuppressed r f).known).2) rfl rfl
  rw [← tell_home hj hjr] at hset
  rw [hw]
  refine ⟨_, changes_trans hn.toChanges hset, hn.kind, hn.exceptions, fun q => ?_⟩
  rw [hs.retained, hn.retained]

/-! ### Kinds -/

/-- The root of a scope has this kind. -/
def HasKind (w : World Pairwise β) (id : GlobalId) (k : ScopeKind) : Prop :=
  ∃ r, w.idOf? r = some id ∧ w.placeOf? r = some id.home ∧ w.kindOf? r = some k

/-- All instances, and all tokens on their way, have the kinds of the roots. -/
structure Uniform (w : World Pairwise β) : Prop where
  instances : ∀ s id k, w.idOf? s = some id → w.kindOf? s = some k → w.HasKind id k
  tokens : ∀ pk ∈ w.net.packets, ∀ tokens body, pk.content = .handOff tokens body →
    ∀ t ∈ tokens, w.HasKind t.id t.kind

theorem HasKind.mono {k : ScopeKind} (h : w.HasKind id k) (hg : Grows w w')
    (hk : ∀ s k, w.kindOf? s = some k → w'.kindOf? s = some k) : w'.HasKind id k := by
  obtain ⟨r, hid, hp, hr⟩ := h
  exact ⟨r, hg.idOf? hid, hg.placeOf? hp, hk r k hr⟩

/-- Instances that get an identity are roots, and those that are new have the kinds of roots. -/
theorem Uniform.grow (h : Uniform w) (hg : Grows w w')
    (hk : ∀ s k, w.kindOf? s = some k → w'.kindOf? s = some k)
    (hnew : ∀ s j id, w.instance? s = none → w'.instance? s = some j → j.id = some id →
      w'.HasKind id j.kind) :
    ∀ s id k, w'.idOf? s = some id → w'.kindOf? s = some k → w'.HasKind id k := by
  intro s id k hid hkind
  obtain ⟨j, hj, rfl⟩ := Option.map_eq_some_iff.mp hkind
  cases hi : w.instance? s with
  | none => exact hnew s j id hi hj (by rw [← idOf?_eq hj, hid])
  | some i =>
    have hk' := hk s i.kind (kindOf?_eq hi)
    by_cases hsame : w.idOf? s = some id
    · rw [← Option.some.inj (hk'.symm.trans hkind)]
      exact (h.instances s id i.kind hsame (kindOf?_eq hi)).mono hg hk
    · exact ⟨s, hid, hg.home (by rw [hi]; rfl) hsame hid, hkind⟩

theorem Uniform.silent {l : List Token} (h : Uniform w) (hg : Grows w w') (hs : Silent l w w')
    (ht : ∀ t ∈ l, w.HasKind t.id t.kind) (hp : ∀ pk ∈ w'.net.packets, pk ∈ w.net.packets ∨
      ∀ tokens body, pk.content = .handOff tokens body →
        ∀ t ∈ tokens, ∃ s i, w'.instance? s = some i ∧ i.id = some t.id ∧ i.kind = t.kind) :
    Uniform w' := by
  have hinst := h.grow hg (fun _ _ => hs.kindOf?) fun s j id hn hj hid => by
    obtain ⟨t, hm, htid, hk⟩ := hs.new s j hn hj
    obtain rfl : t.id = id := Option.some.inj (htid.symm.trans hid)
    rw [hk]
    exact (ht t hm).mono hg fun _ _ => hs.kindOf?
  refine ⟨hinst, fun pk hpk tokens body hc t htm => ?_⟩
  rcases hp pk hpk with hpk | hnew
  · exact (h.tokens pk hpk tokens body hc t htm).mono hg fun _ _ => hs.kindOf?
  · obtain ⟨s, i, hi, hid, hk⟩ := hnew tokens body hc t htm
    rw [← hk]
    exact hinst s t.id i.kind (by rw [idOf?_eq hi, hid]) (kindOf?_eq hi)

theorem Uniform.congr (h : Uniform w) (hn : Namesakes w w') (hk : w'.kindOf? = w.kindOf?)
    (hp : ∀ pk ∈ w'.net.packets, pk ∈ w.net.packets ∨
      ∀ tokens body, pk.content ≠ .handOff tokens body) : Uniform w' := by
  have hkind : w'.HasKind = w.HasKind := by
    funext id k
    unfold HasKind
    rw [hn.ids, hn.places, hk]
  refine ⟨?_, fun pk hpk tokens body hc => ?_⟩
  · rw [hn.ids, hk, hkind]
    exact h.instances
  · rw [hkind]
    rcases hp pk hpk with hpk | hne
    · exact h.tokens pk hpk tokens body hc
    · exact absurd hc (hne tokens body)

/-- The kinds of all instances of one scope are the same. -/
theorem Uniform.akin (h : Uniform w) (ho : Orderly w) (ha : w.Akin r s)
    (hr : (w.kindOf? r).isSome) : w.kindOf? s = w.kindOf? r := by
  rcases ha with rfl | ⟨hsome, he⟩
  · rfl
  · obtain ⟨id, hid⟩ := Option.isSome_iff_exists.mp hsome
    obtain ⟨k, hk⟩ := Option.isSome_iff_exists.mp hr
    obtain ⟨i, hi, -⟩ := Option.bind_eq_some_iff.mp hid
    obtain ⟨a, ha, hap, hak⟩ := h.instances s id i.kind hid (kindOf?_eq hi)
    obtain ⟨b, hb, hbp, hbk⟩ := h.instances r id k (he ▸ hid) hk
    obtain rfl := ho.unique a b id ha hb hap hbp
    rw [kindOf?_eq hi, hk, ← hak, hbk]

/-! ### The operations keep kinds -/

theorem uniform_start {net : Pairwise (Message β)} (hn : net.packets = []) (places : ℕ)
    (kind : ScopeKind) (spins : ℕ) : Uniform (start net places kind spins) := by
  refine ⟨fun s id k hid => ?_, fun pk hpk => ?_⟩
  · simp [start, idOf?, instance?] at hid
  · rw [show (start net places kind spins).net.packets = [] from hn] at hpk
    cases hpk

/-- A scope that is opened has no identity yet. -/
theorem Uniform.openScope (h : Uniform w) (p : PlaceId) (kind : ScopeKind) :
    Uniform (w.openScope p kind).2 := by
  have hg := grows_openScope w p kind
  have hk : ∀ s k, w.kindOf? s = some k → (w.openScope p kind).2.kindOf? s = some k := by
    intro s k hs
    obtain ⟨i, hi, rfl⟩ := Option.map_eq_some_iff.mp hs
    have hi' : (w.openScope p kind).2.instance? s = some i := by
      rw [World.openScope, instance?_addInstance, if_neg (Nat.ne_of_lt (serial_lt hi)), hi]
    exact kindOf?_eq hi'
  refine ⟨h.grow hg hk fun s j id hn hj hid => ?_, fun pk hpk tokens body hc t ht => ?_⟩
  · rw [World.openScope, instance?_addInstance] at hj
    split_ifs at hj
    · cases hj
      cases hid
    · rw [hn] at hj
      cases hj
  · exact (h.tokens pk hpk tokens body hc t ht).mono hg hk

theorem packets_send {sender dest : PlaceId} {m : Message β} (h : w.send sender dest m = .ok w') :
    w'.net.packets = w.net.packets ++ [⟨sender, dest, m⟩] := by
  unfold World.send at h
  by_cases hn : w.net.Refuses dest
  · obtain ⟨e, he⟩ : ∃ e, Network.send w.net ⟨sender, dest, m⟩ = .error e := Pairwise.send_refused hn
    rw [he] at h
    cases h
  · have he : Network.send w.net ⟨sender, dest, m⟩ = .ok _ := Pairwise.send_accepted hn
    rw [he] at h
    cases h
    rfl

theorem packets_addSuppressed (w : World Pairwise β) (s : Serial) (f : Failure) :
    ∀ pk ∈ (w.addSuppressed s f).net.packets, pk ∈ w.net.packets ∨
      ∀ tokens body, pk.content ≠ .handOff tokens body := by
  intro pk hpk
  unfold World.addSuppressed at hpk
  split at hpk
  · exact .inl hpk
  · rename_i i hi
    have hnet := (still_retain w s i f).net
    dsimp only at hpk
    split at hpk
    · exact .inl (hnet ▸ hpk)
    · split at hpk
      · rw [packets_send ‹_›, net_setInstance, hnet] at hpk
        refine (List.mem_append.mp hpk).imp_right fun hm => ?_
        rw [List.mem_singleton.mp hm]
        nofun
      · exact .inl (hnet ▸ hpk)

theorem packets_tell (w : World Pairwise β) (s : Serial) :
    ∀ pk ∈ (w.tell s).net.packets, pk ∈ w.net.packets ∨
      ∀ tokens body, pk.content ≠ .handOff tokens body := by
  intro pk hpk
  unfold World.tell World.report at hpk
  split at hpk
  · exact .inl hpk
  · split at hpk
    · split at hpk
      · exact .inl hpk
      · dsimp only [World.unbind, net_modifyIdentities] at hpk
        split at hpk
        · rw [packets_send ‹_›] at hpk
          refine (List.mem_append.mp hpk).imp_right fun hm => ?_
          rw [List.mem_singleton.mp hm]
          nofun
        · exact .inl hpk
    · exact .inl hpk

/-- Tokens that are sent with a task are given by instances. -/
theorem tokens_spawnAt (w : World Pairwise β) (task : Task β) (p target : PlaceId) :
    ∀ pk ∈ (w.spawnAt task p target).2.net.packets, pk ∈ w.net.packets ∨
      ∀ tokens body, pk.content = .handOff tokens body → ∀ t ∈ tokens,
        ∃ s i, (w.spawnAt task p target).2.instance? s = some i ∧ i.id = some t.id ∧ i.kind = t.kind := by
  intro pk hpk
  unfold World.spawnAt at hpk ⊢
  split_ifs at hpk ⊢
  · have hst := (still_spawnAll w task.finishes p).trans (still_submitAll _ task.finishes)
    exact .inl (hst.net ▸ hpk)
  · have h0 := still_prepareAll w task.finishes
    have ht : ∀ tokens, (w.prepareAll task.finishes).1 = .ok tokens → _ := fun _ => token_prepareAll
    rcases hr : w.prepareAll task.finishes with ⟨_ | tokens, w₁⟩ <;> rw [hr] at h0 ht hpk
    · exact .inl (h0.net ▸ hpk)
    · have h1 := silent_spawnAll (l := []) w₁ task.finishes target
      have hnet := (h0.trans (still_spawnAll w₁ task.finishes target)).net
      simp only at hpk ⊢
      cases hsend : (w₁.spawnAll task.finishes target).send p target (.handOff tokens task.body) with
      | ok w₂ =>
        simp only [hsend, packets_send hsend, hnet] at hpk ⊢
        refine (List.mem_append.mp hpk).imp_right fun hm tokens' body hc t htm => ?_
        rw [List.mem_singleton.mp hm] at hc
        cases hc
        obtain ⟨s, i, hi, hid, hk⟩ := ht tokens rfl t htm
        obtain ⟨j, hj, hjk, hjid⟩ := (h1.trans (silent_send hsend)).old s i hi
        exact ⟨s, j, hj, hjid _ hid, hjk.trans hk⟩
      | error e =>
        simp only [hsend] at hpk
        have hu := (still_unspawnAll (w₁.spawnAll task.finishes target) task.finishes target).net
        exact .inl (by rwa [hu, hnet] at hpk)

theorem Uniform.spawnAt (h : Uniform w) (ho : Orderly w) (task : Task β) (p target : PlaceId) :
    Uniform (w.spawnAt task p target).2 :=
  h.silent (ho.grows_spawnAt task p target) (silent_spawnAt (l := []) w task p target) nofun
    (tokens_spawnAt w task p target)

theorem Uniform.tell (h : Uniform w) (s : Serial) : Uniform (w.tell s) :=
  h.silent (grows_tell w s) (silent_tell (l := []) w s) nofun fun pk hpk =>
    (packets_tell w s pk hpk).imp_right fun hne tokens body hc => absurd hc (hne tokens body)

theorem Uniform.tellAll (h : Uniform w) (fs : List Serial) : Uniform (w.tellAll fs) :=
  List.foldlRecOn fs _ h fun _ h s _ => h.tell s

/-- A message that is no task is of no account. -/
theorem Uniform.notes (h : Uniform w) (hn : Notes w w' s i j f kept)
    (hp : ∀ pk ∈ w'.net.packets, pk ∈ w.net.packets ∨
      ∀ tokens body, pk.content ≠ .handOff tokens body) : Uniform w' :=
  h.congr hn.steady.toNamesakes hn.kinds hp

end Noting

end World

end Quiescence
