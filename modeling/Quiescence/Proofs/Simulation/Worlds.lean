/-
# Worlds over another network

The operations on a world ask its network for two things only: how many places
are known, and whether a message is accepted. A map between networks that keeps
both (`Network.Sends`) makes a world over the one into a world over the other,
and every operation does the same in both.
-/
import Mathlib.Data.Nat.Notation
import Mathlib.Tactic.SplitIfs
import Quiescence.World.Task

namespace Quiescence

variable {ν ν' : Type → Type}

/-- The same places are known, and the same messages are accepted. -/
structure Network.Sends [Network ν] [Network ν'] {μ : Type} (h : ν μ → ν' μ) : Prop where
  known : ∀ n, Network.known (h n) = Network.known n
  send : ∀ n pk, Network.send (h n) pk = (Network.send n pk).map h

namespace World

variable {β : Type}

/-- The same world with another network. -/
def recast (h : ν (Message β) → ν' (Message β)) (w : World ν β) : World ν' β :=
  ⟨h w.net, w.sites, w.instances, w.jobs⟩

section Tables

variable (h : ν (Message β) → ν' (Message β)) (w : World ν β) (s : Serial)

@[simp] theorem net_recast : (w.recast h).net = h w.net := rfl

@[simp] theorem sites_recast : (w.recast h).sites = w.sites := rfl

@[simp] theorem jobs_recast : (w.recast h).jobs = w.jobs := rfl

@[simp] theorem instance?_recast : (w.recast h).instance? s = w.instance? s := rfl

@[simp] theorem site?_recast (p : PlaceId) : (w.recast h).site? p = w.site? p := rfl

@[simp] theorem bound?_recast (p : PlaceId) (id : GlobalId) : (w.recast h).bound? p id = w.bound? p id := rfl

@[simp] theorem lookup_recast (p : PlaceId) (id : GlobalId) : (w.recast h).lookup p id = w.lookup p id := rfl

@[simp] theorem isReleasable_recast : (w.recast h).isReleasable s = w.isReleasable s := rfl

@[simp] theorem setInstance_recast (i : Instance) :
    (w.recast h).setInstance s i = (w.setInstance s i).recast h := rfl

@[simp] theorem modifySite_recast (p : PlaceId) (f : Site → Site) :
    (w.recast h).modifySite p f = (w.modifySite p f).recast h := rfl

@[simp] theorem modifyIdentities_recast (p : PlaceId) (f : Registry Binding → Registry Binding) :
    (w.recast h).modifyIdentities p f = (w.modifyIdentities p f).recast h := rfl

@[simp] theorem unbind_recast (p : PlaceId) (id : GlobalId) :
    (w.recast h).unbind p id s = (w.unbind p id s).recast h := rfl

@[simp] theorem enqueue_recast (job : Job β) : (w.recast h).enqueue job = (w.enqueue job).recast h := rfl

@[simp] theorem takeJob_recast (i : ℕ) :
    (w.recast h).takeJob i = (w.takeJob i).map fun out => (out.1, out.2.recast h) := by
  unfold World.takeJob
  rw [jobs_recast]
  cases w.jobs[i]? <;> rfl

theorem submit_recast : (w.recast h).submit s = ((w.submit s).1, (w.submit s).2.recast h) := by
  unfold World.submit
  rw [instance?_recast]
  cases w.instance? s with
  | none => rfl
  | some i =>
    dsimp only
    cases i.remoteId? with
    | none => rfl
    | some id =>
      simp only [bound?_recast]
      split_ifs
      · rfl
      · cases w.bound? i.place id <;> rfl

theorem exit_recast : (w.recast h).exit s = (w.exit s).recast h := by
  unfold World.exit
  rw [instance?_recast]
  cases w.instance? s with
  | none => rfl
  | some i =>
    dsimp only
    cases i.id <;> rfl

theorem takeExceptions_recast :
    (w.recast h).takeExceptions s = ((w.takeExceptions s).1, (w.takeExceptions s).2.recast h) := by
  unfold World.takeExceptions
  rw [instance?_recast]
  cases w.instance? s <;> rfl

theorem leave_recast : (w.recast h).leave s = ((w.leave s).1, (w.leave s).2.recast h) := by
  unfold World.leave
  rw [exit_recast, takeExceptions_recast]

theorem retain_recast (i : Instance) (f : Failure) : (w.recast h).retain s i f = (w.retain s i f).recast h := by
  unfold World.retain
  split_ifs <;> rfl

theorem submitAll_recast (fs : List Serial) : (w.recast h).submitAll fs = (w.submitAll fs).recast h := by
  induction fs generalizing w with
  | nil => rfl
  | cons s fs ih =>
    show ((w.recast h).submit s).2.submitAll fs = _
    rw [submit_recast]
    exact ih _

end Tables

variable [Network ν] [Network ν'] {h : ν (Message β) → ν' (Message β)} (hs : Network.Sends h)
  (w : World ν β) (s : Serial) (p target : PlaceId)

include hs

theorem known_recast : (w.recast h).known = w.known := hs.known w.net

theorem send_recast (sender dest : PlaceId) (m : Message β) :
    (w.recast h).send sender dest m = (w.send sender dest m).map (recast h) := by
  unfold World.send
  rw [net_recast, hs.send]
  cases Network.send w.net ⟨sender, dest, m⟩ <;> rfl

theorem openScope_recast (kind : ScopeKind) :
    (w.recast h).openScope p kind = ((w.openScope p kind).1, (w.openScope p kind).2.recast h) := by
  unfold World.openScope
  rw [known_recast hs]
  rfl

theorem spawn_recast : (w.recast h).spawn s target = (w.spawn s target).recast h := by
  unfold World.spawn
  rw [instance?_recast, known_recast hs]
  cases w.instance? s with
  | none => rfl
  | some i =>
    dsimp only
    cases i.remoteId? <;> rfl

theorem unspawn_recast : (w.recast h).unspawn s target = (w.unspawn s target).recast h := by
  unfold World.unspawn
  rw [instance?_recast, known_recast hs]
  cases w.instance? s with
  | none => rfl
  | some i =>
    dsimp only
    cases i.remoteId? <;> rfl

theorem update_recast (deltas : List Int) : (w.recast h).update s deltas = (w.update s deltas).recast h := by
  unfold World.update
  rw [instance?_recast, known_recast hs]
  cases w.instance? s <;> rfl

theorem report_recast (i : Instance) (id : GlobalId) (deltas : List Int) :
    (w.recast h).report s i id deltas = (w.report s i id deltas).recast h := by
  unfold World.report
  simp only [setInstance_recast, send_recast hs]
  cases (w.setInstance s { i with bound := false }).send i.place id.home (.report id deltas) <;> rfl

theorem tell_recast : (w.recast h).tell s = (w.tell s).recast h := by
  unfold World.tell
  simp only [instance?_recast, known_recast hs, report_recast hs]
  cases w.instance? s with
  | none => rfl
  | some i =>
    dsimp only
    cases i.remoteId? with
    | none => rfl
    | some id =>
      rcases i.counters.tellAway i.place w.known with ⟨_ | deltas, c⟩ <;> rfl

theorem prepareTransfer_recast : (w.recast h).prepareTransfer s =
    ((w.prepareTransfer s).1, (w.prepareTransfer s).2.recast h) := by
  unfold World.prepareTransfer
  simp only [instance?_recast, known_recast hs, site?_recast]
  cases w.instance? s with
  | none => rfl
  | some i =>
    cases hid : i.id with
    | some id => simp [hid]
    | none =>
      cases hsite : w.site? i.place with
      | none => simp [hid, hsite]
      | some site => cases hal : site.identities.allocate <;> simp [hid, hsite, hal]

theorem resolve_recast (tok : Token) :
    (w.recast h).resolve tok p = ((w.resolve tok p).1, (w.resolve tok p).2.recast h) := by
  unfold World.resolve
  rw [lookup_recast, known_recast hs]
  cases w.lookup p tok.id with
  | ok s => rfl
  | error e =>
    cases e with
    | unknownIdentity id =>
      simp only
      split_ifs <;> rfl
    | _ => rfl

theorem accept_recast (tok : Token) :
    (w.recast h).accept tok p = ((w.accept tok p).1, (w.accept tok p).2.recast h) := by
  unfold World.accept
  rw [resolve_recast hs]
  rcases w.resolve tok p with ⟨_ | s, w₁⟩
  · rfl
  · simp only [submit_recast]

theorem addSuppressed_recast (f : Failure) :
    (w.recast h).addSuppressed s f = (w.addSuppressed s f).recast h := by
  unfold World.addSuppressed
  simp only [instance?_recast, known_recast hs, retain_recast, setInstance_recast, send_recast hs]
  cases w.instance? s with
  | none => rfl
  | some i =>
    dsimp only
    cases i.remoteId? with
    | none => rfl
    | some id =>
      dsimp only
      cases ((w.retain s i f).setInstance s _).send i.place id.home (.failure id f.encode) <;> rfl

theorem deliverFailure_recast (id : GlobalId) (payload : Wire.Bytes) :
    (w.recast h).deliverFailure p id payload = (w.deliverFailure p id payload).recast h := by
  unfold World.deliverFailure
  rw [lookup_recast]
  cases w.lookup p id with
  | error e => rfl
  | ok r => simp only [submit_recast, addSuppressed_recast hs, tell_recast hs]

theorem spawnAll_recast (fs : List Serial) :
    (w.recast h).spawnAll fs target = (w.spawnAll fs target).recast h := by
  induction fs generalizing w with
  | nil => rfl
  | cons s fs ih =>
    show ((w.recast h).spawn s target).spawnAll fs target = _
    rw [spawn_recast hs]
    exact ih _

theorem unspawnAll_recast (fs : List Serial) :
    (w.recast h).unspawnAll fs target = (w.unspawnAll fs target).recast h := by
  induction fs generalizing w with
  | nil => rfl
  | cons s fs ih =>
    show ((w.recast h).unspawn s target).unspawnAll fs target = _
    rw [unspawn_recast hs]
    exact ih _

theorem tellAll_recast (fs : List Serial) : (w.recast h).tellAll fs = (w.tellAll fs).recast h := by
  induction fs generalizing w with
  | nil => rfl
  | cons s fs ih =>
    show ((w.recast h).tell s).tellAll fs = _
    rw [tell_recast hs]
    exact ih _

theorem spawnHere_recast (task : Task β) :
    (w.recast h).spawnHere task p = (w.spawnHere task p).recast h := by
  unfold World.spawnHere
  rw [spawnAll_recast hs, submitAll_recast]
  rfl

theorem prepareAll_recast (fs : List Serial) :
    (w.recast h).prepareAll fs = ((w.prepareAll fs).1, (w.prepareAll fs).2.recast h) := by
  induction fs generalizing w with
  | nil => rfl
  | cons s fs ih =>
    simp only [World.prepareAll, prepareTransfer_recast hs]
    rcases w.prepareTransfer s with ⟨_ | tok, w₁⟩
    · rfl
    · simp only [ih]
      rcases w₁.prepareAll fs with ⟨_ | ts, w₂⟩ <;> rfl

theorem spawnAt_recast (task : Task β) : (w.recast h).spawnAt task p target =
    ((w.spawnAt task p target).1, (w.spawnAt task p target).2.recast h) := by
  unfold World.spawnAt
  split_ifs
  · rw [spawnHere_recast hs]
  · rw [prepareAll_recast hs]
    rcases w.prepareAll task.finishes with ⟨_ | tokens, w₁⟩
    · rfl
    · simp only [spawnAll_recast hs, send_recast hs]
      cases (w₁.spawnAll task.finishes target).send p target (.handOff tokens task.body) with
      | ok w₂ => rfl
      | error e => simp only [Except.map, unspawnAll_recast hs]

theorem acceptAll_recast (tokens : List Token) :
    (w.recast h).acceptAll p tokens = ((w.acceptAll p tokens).1, (w.acceptAll p tokens).2.recast h) := by
  induction tokens generalizing w with
  | nil => rfl
  | cons tok tokens ih =>
    simp only [World.acceptAll, accept_recast hs]
    rcases w.accept tok p with ⟨_ | s, w₁⟩
    · rfl
    · simp only [ih]

theorem receive_recast (m : Message β) : (w.recast h).receive p m = (w.receive p m).recast h := by
  unfold World.receive
  rw [site?_recast]
  cases w.site? p with
  | none => rfl
  | some site =>
    cases m with
    | handOff tokens body =>
      simp only [World.receiveTask, acceptAll_recast hs]
      rcases w.acceptAll p tokens with ⟨⟨accepted, _ | _⟩, w₁⟩
      · simp only [tellAll_recast hs]
        rfl
      · rfl
    | report id deltas =>
      simp only [World.receiveReport, lookup_recast]
      cases w.lookup p id with
      | error e => rfl
      | ok r =>
        simp only [update_recast hs]
        rfl
    | failure id payload =>
      simp only [deliverFailure_recast hs]
      rfl

theorem complete_recast (job : Job β) (failure : Option Failure) :
    (w.recast h).complete job failure = (w.complete job failure).recast h := by
  unfold World.complete
  cases failure with
  | none =>
    simp only [tellAll_recast hs]
    rfl
  | some f =>
    cases job.finishes with
    | nil => rfl
    | cons s fs =>
      simp only [addSuppressed_recast hs, tellAll_recast hs]
      rfl

theorem endBody_recast (failure : Option Failure) :
    (w.recast h).endBody s failure = (w.endBody s failure).recast h := by
  unfold World.endBody
  cases failure with
  | none => exact tell_recast hs w s
  | some f => simp only [addSuppressed_recast hs, tell_recast hs]

end World

end Quiescence
