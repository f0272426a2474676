/-
# Counters away from home after any history

An instance away from home notes for each place what has happened since its last
report, and counts the tasks that it has accepted and that have not ended. When
the last of them ends, all it has noted is due to be reported, and it starts
again from nothing. Here events come in any order, tasks may end before they are
accepted, and any number of places may be known at each event.

* `Event`, `handle`: the events, and the report that one of them makes due.
* `net`: what a history adds up to, place by place.
* `Settles`, `Since`: when a report is due, and the events since the last one.
* `handle_quiet`, `handle_report`: what one event leaves, and what it reports.
* `accounted_after`: what a whole history leaves.
* `changes_reported_once`: nothing is lost and nothing is reported twice; the
  root that is given the reports, in any order, has the same tallies; the number
  of known places shows in nothing but the number of slots.
-/
import Mathlib.Algebra.BigOperators.Group.List.Basic
import Mathlib.Data.List.ReduceOption
import Quiescence.Proofs.Tally.History

namespace Quiescence

namespace Counters

namespace Away

/-- What can happen to the counters of an instance away from home. -/
inductive Event where
  | materialize
  | spawn (target : PlaceId)
  | submit
  | unspawn (target : PlaceId)
  | tell
  deriving DecidableEq, Repr

/-- An event, with the number of places known when it happens. -/
structure Turn where
  event : Event
  known : ℕ
  deriving DecidableEq, Repr

namespace Event

/-- What an event adds for the place at position `k`. -/
def amount (here : PlaceId) (k : ℕ) : Event → ℤ
  | spawn target => if k = target.index then 1 else 0
  | unspawn target => if k = target.index then -1 else 0
  | tell => if k = here.index then -1 else 0
  | _ => 0

/-- What an event adds to the tasks accepted and not ended. -/
def load : Event → ℤ
  | submit => 1
  | tell => -1
  | _ => 0

/-- Does the event allocate slots where there are none? -/
def allocates : Event → Bool
  | submit => false
  | _ => true

end Event

variable {here : PlaceId} {c c' : Counters} {turn turn' : Turn} {turns turns' : List Turn}
  {event : Event} {events old new : List Event}

/-- The report that is due with the event, if one is, and what is left. -/
def handle (c : Counters) (here : PlaceId) (turn : Turn) : Option (List Int) × Counters :=
  match turn.event with
  | .materialize => (none, c.materialize turn.known)
  | .spawn target => (none, c.spawnAway target turn.known)
  | .submit => (none, c.submitAway)
  | .unspawn target => (none, c.unspawnAway target turn.known)
  | .tell => c.tellAway here turn.known

/-- The counters after some events. -/
def played (here : PlaceId) (c : Counters) (turns : List Turn) : Counters :=
  turns.foldl (fun c turn => (handle c here turn).2) c

/-- What is due with each of the events. -/
def dues (here : PlaceId) : Counters → List Turn → List (Option (List Int))
  | _, [] => []
  | c, turn :: turns => (handle c here turn).1 :: dues here (handle c here turn).2 turns

/-- The counters of a new instance after some events. -/
def after (here : PlaceId) (turns : List Turn) : Counters := played here zero turns

/-- The reports of a new instance, in order. -/
def reports (here : PlaceId) (turns : List Turn) : List (List Int) :=
  (dues here zero turns).reduceOption

/-- The events, whatever is known at each. -/
def eventsOf (turns : List Turn) : List Event := turns.map (·.event)

/-- What events add up to for the place at position `k`. -/
def net (here : PlaceId) (events : List Event) (k : ℕ) : ℤ :=
  (events.map (·.amount here k)).sum

/-- What reports add up to for the place at position `k`. -/
def reported (rs : List (List Int)) (k : ℕ) : ℤ := (rs.map (slot · k)).sum

/-- The last event is the end of a task, and with it as many have ended as were accepted. -/
def Settles (events : List Event) : Prop :=
  events.getLast? = some .tell ∧ events.count .tell = events.count .submit

/-- The new events are those after the last one that settled all before it. -/
structure Since (events old new : List Event) : Prop where
  split : old ++ new = events
  settled : old = [] ∨ Settles old
  unsettled : ∀ front, front <+: new → front ≠ [] → ¬ Settles (old ++ front)

theorem after_concat (here : PlaceId) (turns : List Turn) (turn : Turn) :
    after here (turns ++ [turn]) = (handle (after here turns) here turn).2 := by
  simp [after, played]

theorem dues_concat (here : PlaceId) (c : Counters) (turns : List Turn) (turn : Turn) :
    dues here c (turns ++ [turn]) =
      dues here c turns ++ [(handle (played here c turns) here turn).1] := by
  induction turns generalizing c with
  | nil => rfl
  | cons first turns ih => exact congrArg ((handle c here first).1 :: ·) (ih _)

theorem reports_concat (here : PlaceId) (turns : List Turn) (turn : Turn) :
    reports here (turns ++ [turn]) =
      reports here turns ++ (handle (after here turns) here turn).1.toList := by
  rw [reports, dues_concat, List.reduceOption_append, List.reduceOption_singleton]
  rfl

@[simp] theorem eventsOf_concat (turns : List Turn) (turn : Turn) :
    eventsOf (turns ++ [turn]) = eventsOf turns ++ [turn.event] := by simp [eventsOf]

theorem net_concat (here : PlaceId) (events : List Event) (event : Event) (k : ℕ) :
    net here (events ++ [event]) k = net here events k + event.amount here k := by
  simp [net]

theorem reported_append (rs rs' : List (List Int)) (k : ℕ) :
    reported (rs ++ rs') k = reported rs k + reported rs' k := by
  simp [reported]

/-! ### The events since the last report -/

theorem since_nil : Since [] [] [] where
  split := rfl
  settled := .inl rfl
  unsettled _ hf hne := absurd (List.prefix_nil.mp hf) hne

theorem Since.quiet (h : Since events old new) (hs : ¬ Settles (events ++ [event])) :
    Since (events ++ [event]) old (new ++ [event]) where
  split := by rw [← List.append_assoc, h.split]
  settled := h.settled
  unsettled front hf hne := by
    rcases List.prefix_concat_iff.mp hf with rfl | hf
    · rwa [← List.append_assoc, h.split]
    · exact h.unsettled front hf hne

theorem since_settled (h : Settles events) : Since events events [] where
  split := List.append_nil events
  settled := .inr h
  unsettled _ hf hne := absurd (List.prefix_nil.mp hf) hne

/-- The tasks accepted and not ended are told by the counts of events. -/
theorem settles_concat_iff : Settles (events ++ [event]) ↔
    event = .tell ∧ (events.count .submit : ℤ) - events.count .tell = 1 := by
  unfold Settles
  rw [List.getLast?_concat, Option.some.injEq, List.count_append, List.count_append]
  refine and_congr_right fun he => ?_
  subst he
  simp only [List.count_singleton, beq_self_eq_true, if_true]
  rw [if_neg (by decide)]
  omega

/-! ### One event -/

theorem count_handle (c : Counters) (here : PlaceId) (turn : Turn) :
    (handle c here turn).2.count = c.count + turn.event.load := by
  obtain ⟨event, known⟩ := turn
  cases event with
  | materialize => exact (add_zero _).symm
  | spawn target => exact (add_zero _).symm
  | submit => rfl
  | unspawn target => exact (add_zero _).symm
  | tell =>
    by_cases h : c.count = 1
    · obtain ⟨report, c', htell, -, hc', -⟩ := tellAway_report here known h
      simp [handle, htell, hc', Event.load, h]
    · rw [handle, tellAway_quiet here known h]
      rfl

/-- A report is due when the last task accepted has ended. -/
theorem isSome_handle (c : Counters) (here : PlaceId) (turn : Turn) :
    (handle c here turn).1.isSome ↔ turn.event = .tell ∧ c.count = 1 := by
  obtain ⟨event, known⟩ := turn
  cases event with
  | tell =>
    by_cases h : c.count = 1
    · obtain ⟨report, c', htell, -⟩ := tellAway_report here known h
      simp [handle, htell, h]
    · simp [handle, tellAway_quiet here known h, h]
  | _ => simp [handle]

/-- Where no report is due with an end, other tasks have not ended. -/
theorem handle_tell_quiet {known : ℕ} (h : (handle c here ⟨.tell, known⟩).1 = none) :
    handle c here ⟨.tell, known⟩ =
      (none, { c.addAway here.index known (-1) with count := c.count - 1 }) := by
  refine tellAway_quiet here known fun h1 => ?_
  have hs := (isSome_handle c here ⟨.tell, known⟩).mpr ⟨rfl, h1⟩
  rw [h] at hs
  cases hs

/-- Where no report is due, the event is noted. -/
theorem handle_quiet (h : (handle c here turn).1 = none) (k : ℕ) :
    (handle c here turn).2.unreported k = c.unreported k + turn.event.amount here k := by
  have hadd : ∀ i known d, (c.addAway i known d).unreported k =
      c.unreported k + if k = i then d else 0 := fun i known d => by
    rw [unreported_addAway, Pi.add_apply, Pi.single_apply]
  obtain ⟨event, known⟩ := turn
  cases event with
  | materialize => exact (slot_slotsAway c known k).trans (add_zero _).symm
  | spawn target => exact hadd target.index known 1
  | submit => exact (add_zero _).symm
  | unspawn target => exact hadd target.index known (-1)
  | tell =>
    rw [handle_tell_quiet h]
    exact hadd here.index known (-1)

theorem length_slotsAway_addAway (c : Counters) (i known : ℕ) (d : Int) :
    ((c.addAway i known d).slotsAway known).length =
      (extend (c.slotsAway known) i known).length := by
  simp [addAway, slotsAway]

/-- A report holds all that was noted, with the end that made it due, and leaves as many zeros. Slots
that were there are all reported, and there are no more of them than before if one was for here. -/
theorem handle_report {report : List Int} (h : (handle c here turn).1 = some report) :
    (∀ k, slot report k = c.unreported k + turn.event.amount here k) ∧
    (handle c here turn).2.slots = some (List.replicate report.length 0) ∧
    ∀ slots, c.slots = some slots → slots.length ≤ report.length ∧
      (here.index < slots.length → report.length = slots.length) := by
  obtain ⟨he, h1⟩ := (isSome_handle c here turn).mp (Option.isSome_iff_exists.mpr ⟨report, h⟩)
  obtain ⟨event, known⟩ := turn
  obtain rfl : event = .tell := he
  have h0 : c.count - 1 = 0 := by omega
  simp only [handle, tellAway, count_addAway, h0, if_true, Option.some.injEq] at h
  have hreport : (c.addAway here.index known (-1)).slotsAway known = report := h
  refine ⟨fun k => ?_, ?_, fun slots hs => ?_⟩
  · rw [← hreport, slot_slotsAway, unreported_addAway, Pi.add_apply, Pi.single_apply]
    rfl
  · simp only [handle, tellAway, count_addAway, h0, if_true]
    rw [← hreport]
    rfl
  · have hlen : report.length = (extend slots here.index known).length := by
      rw [← hreport, length_slotsAway_addAway, slotsAway, hs, Option.getD_some]
    rw [hlen]
    refine ⟨length_extend slots here.index known, fun hi => ?_⟩
    rw [extend, if_pos hi]

theorem unreported_of_zeros {n : ℕ} (h : c.slots = some (List.replicate n 0)) (k : ℕ) :
    c.unreported k = 0 := by
  rw [unreported, h, Option.getD_some, slot_replicate]

/-! ### Histories -/

/-- The counters have come about by the events, with those reports on the way. -/
structure Accounted (here : PlaceId) (events : List Event) (rs : List (List Int)) (c : Counters) :
    Prop where
  count : c.count = events.count .submit - events.count .tell
  since : ∃ old new, Since events old new ∧ ∀ k, c.unreported k = net here new k
  total : ∀ k, reported rs k + c.unreported k = net here events k

/-- A report is due just when the event settles all before it. -/
theorem Accounted.isSome_handle_iff {rs : List (List Int)} (h : Accounted here events rs c)
    (turn : Turn) : (handle c here turn).1.isSome ↔ Settles (events ++ [turn.event]) := by
  rw [isSome_handle, settles_concat_iff, h.count]

/-- Each event is noted, and reported with all that was noted if that is due. -/
theorem Accounted.handle {rs : List (List Int)} (h : Accounted here events rs c) (turn : Turn) :
    Accounted here (events ++ [turn.event]) (rs ++ (handle c here turn).1.toList)
      (handle c here turn).2 := by
  have hcount : (Away.handle c here turn).2.count =
      (events ++ [turn.event]).count .submit - (events ++ [turn.event]).count .tell := by
    rw [count_handle, h.count, List.count_append, List.count_append, List.count_singleton,
      List.count_singleton]
    cases turn.event <;> simp [Event.load] <;> omega
  have hdue := h.isSome_handle_iff turn
  cases hd : (Away.handle c here turn).1 with
  | none =>
    rw [hd] at hdue
    have hquiet := handle_quiet hd
    obtain ⟨old, new, hs, hk⟩ := h.since
    refine ⟨hcount, ⟨old, new ++ [turn.event], hs.quiet (by simpa using hdue), fun k => ?_⟩,
      fun k => ?_⟩
    · rw [hquiet, net_concat, hk]
    · rw [Option.toList_none, List.append_nil, hquiet, net_concat, ← h.total k, add_assoc]
  | some report =>
    rw [hd] at hdue
    obtain ⟨hslot, hzeros, -⟩ := handle_report hd
    have hempty := unreported_of_zeros hzeros
    refine ⟨hcount, ⟨_, [], since_settled (hdue.mp rfl), fun k => hempty k⟩, fun k => ?_⟩
    rw [Option.toList_some, reported_append, hempty, net_concat, ← h.total k, add_zero, add_assoc]
    congr 1
    simpa [reported] using hslot k

theorem accounted_after (here : PlaceId) (turns : List Turn) :
    Accounted here (eventsOf turns) (reports here turns) (after here turns) := by
  induction turns using List.reverseRecOn with
  | nil => exact ⟨rfl, ⟨[], [], since_nil, fun _ => rfl⟩, fun _ => rfl⟩
  | append_singleton turns turn ih =>
    rw [eventsOf_concat, reports_concat, after_concat]
    exact ih.handle turn

/-! ### The root that is given the reports -/

/-- The counters of an instance at home that is given reports, each with the number of places known
when it arrives. -/
def merged (home : PlaceId) (root : Counters) (arrivals : List (List Int × ℕ)) : Counters :=
  arrivals.foldl (fun root a => (root.update home a.1 a.2).2) root

theorem tally_merged (home : PlaceId) (root : Counters) (arrivals : List (List Int × ℕ)) (k : ℕ) :
    (merged home root arrivals).tally home k =
      root.tally home k + reported (arrivals.map Prod.fst) k := by
  induction arrivals generalizing root with
  | nil => exact (add_zero _).symm
  | cons a arrivals ih =>
    refine (ih (root.update home a.1 a.2).2).trans ?_
    rw [tally_update, add_assoc]
    rfl

theorem exact_merged {root : Counters} (h : root.Exact) (home : PlaceId)
    (arrivals : List (List Int × ℕ)) : (merged home root arrivals).Exact := by
  induction arrivals generalizing root with
  | nil => exact h
  | cons a arrivals ih => exact ih (update_spec h home a.1 a.2).1

theorem reported_perm {rs rs' : List (List Int)} (h : rs.Perm rs') (k : ℕ) :
    reported rs k = reported rs' k := (h.map (slot · k)).sum_eq

/-! ### The number of known places -/

/-- Two reports say the same of every place. -/
def Likewise (r r' : List Int) : Prop := ∀ k, slot r k = slot r' k

theorem agrees_iff : Agrees c c' ↔ c'.count = c.count ∧ c'.slots.isSome = c.slots.isSome ∧
    ∀ k, c'.unreported k = c.unreported k := by
  refine ⟨fun h => ⟨h.count, h.split, fun k => ?_⟩, fun ⟨hn, hsome, hk⟩ => ⟨hn, hsome, ?_⟩⟩
  · have hsplit := h.split
    unfold unreported
    cases hs : c.slots with
    | none =>
      rw [hs, Option.isSome_none, Option.isSome_eq_false_iff, Option.isNone_iff_eq_none] at hsplit
      rw [hsplit]
    | some slots =>
      rw [hs, Option.isSome_some, Option.isSome_iff_exists] at hsplit
      obtain ⟨slots', hs'⟩ := hsplit
      rw [hs']
      exact h.slot slots slots' hs hs' k
  · intro slots slots' hs hs' k
    have := hk k
    rwa [unreported, unreported, hs, hs'] at this

theorem isSome_slots_handle (c : Counters) (here : PlaceId) (turn : Turn) :
    (handle c here turn).2.slots.isSome = (c.slots.isSome || turn.event.allocates) := by
  obtain ⟨event, known⟩ := turn
  cases event with
  | submit => exact (Bool.or_false _).symm
  | tell =>
    cases hd : (handle c here ⟨.tell, known⟩).1 with
    | some report => simp [(handle_report hd).2.1, Event.allocates]
    | none => simp [handle_tell_quiet hd, addAway, Event.allocates]
  | _ => simp [handle, materialize, spawnAway, unspawnAway, addAway, Event.allocates]

/-- Counters that differ in the number of slots at most take an event in the same way. -/
theorem agrees_handle (here : PlaceId) (h : Agrees c c') (he : turn'.event = turn.event) :
    Option.Rel Likewise (handle c here turn).1 (handle c' here turn').1 ∧
      Agrees (handle c here turn).2 (handle c' here turn').2 := by
  obtain ⟨hn, hsome, hk⟩ := agrees_iff.mp h
  have hcount : (Away.handle c' here turn').2.count = (Away.handle c here turn).2.count := by
    rw [count_handle, count_handle, hn, he]
  have hslots : (Away.handle c' here turn').2.slots.isSome =
      (Away.handle c here turn).2.slots.isSome := by
    rw [isSome_slots_handle, isSome_slots_handle, hsome, he]
  have hdue : (Away.handle c' here turn').1.isSome ↔ (Away.handle c here turn).1.isSome := by
    rw [isSome_handle, isSome_handle, hn, he]
  cases hd : (Away.handle c here turn).1 <;> cases hd' : (Away.handle c' here turn').1 <;>
    rw [hd, hd'] at hdue
  · refine ⟨.none, agrees_iff.mpr ⟨hcount, hslots, fun k => ?_⟩⟩
    rw [handle_quiet hd, handle_quiet hd', hk, he]
  · simp at hdue
  · simp at hdue
  · obtain ⟨hr, hz, -⟩ := handle_report hd
    obtain ⟨hr', hz', -⟩ := handle_report hd'
    refine ⟨.some fun k => ?_, agrees_iff.mpr ⟨hcount, hslots, fun k => ?_⟩⟩
    · rw [hr, hr', hk, he]
    · rw [unreported_of_zeros hz, unreported_of_zeros hz']

theorem agrees_played (h : Agrees c c') (he : eventsOf turns' = eventsOf turns) :
    List.Forall₂ (Option.Rel Likewise) (dues here c turns) (dues here c' turns') ∧
      Agrees (played here c turns) (played here c' turns') := by
  induction turns generalizing c c' turns' with
  | nil =>
    obtain rfl : turns' = [] := List.map_eq_nil_iff.mp he
    exact ⟨.nil, h⟩
  | cons turn turns ih =>
    cases turns' with
    | nil => cases he
    | cons turn' turns' =>
      obtain ⟨he, hes⟩ := List.cons_eq_cons.mp he
      obtain ⟨hdue, hagree⟩ := agrees_handle here h he
      obtain ⟨hdues, hplayed⟩ := ih hagree hes
      exact ⟨.cons hdue hdues, hplayed⟩

/-! ### All of it -/

/-- **Every change is reported once.** After any history away from home, an event makes a report due
exactly when it is the end of a task and as many have ended as were accepted. The report says of
every place what the events since the last report add up to, and leaves zeros in all the slots, as
many as it has told of; these are those that there were, and more only if there was none for here.
All reports and what is noted since add up to the whole history. A root that is given the reports, in
any order, adds all that was reported to its tallies, and if it was exact, it mirrors them. A history
with the same events, whatever is known at each, makes reports due that say the same, and the same
counters, but for the number of slots. -/
theorem changes_reported_once (here : PlaceId) (turns : List Turn) :
    (∀ turn, (handle (after here turns) here turn).1.isSome ↔
      Settles (eventsOf (turns ++ [turn]))) ∧
    (∀ turn report, (handle (after here turns) here turn).1 = some report →
      (∃ old new, Since (eventsOf turns) old new ∧
        ∀ k, slot report k = net here (new ++ [.tell]) k) ∧
      (after here (turns ++ [turn])).slots = some (List.replicate report.length 0) ∧
      ∀ slots, (after here turns).slots = some slots → slots.length ≤ report.length ∧
        (here.index < slots.length → report.length = slots.length)) ∧
    (∀ k, reported (reports here turns) k + (after here turns).unreported k =
      net here (eventsOf turns) k) ∧
    (∀ (home : PlaceId) (root : Counters) (arrivals : List (List Int × ℕ)),
      (arrivals.map Prod.fst).Perm (reports here turns) →
      (∀ k, (merged home root arrivals).tally home k =
        root.tally home k + reported (reports here turns) k) ∧
      (root.Exact → Mirrors home ((merged home root arrivals).tally home)
        (merged home root arrivals))) ∧
    ∀ turns', eventsOf turns' = eventsOf turns →
      List.Forall₂ (Option.Rel Likewise) (dues here zero turns) (dues here zero turns') ∧
      Agrees (after here turns) (after here turns') := by
  have h := accounted_after here turns
  refine ⟨fun turn => ?_, fun turn report hr => ?_, h.total, fun home root arrivals hp => ⟨fun k => ?_,
    fun hx => mirrors_of_tally (exact_merged hx home arrivals)⟩, fun turns' he => ?_⟩
  · rw [eventsOf_concat]
    exact h.isSome_handle_iff turn
  · obtain ⟨hslot, hzeros, hlen⟩ := handle_report hr
    rw [after_concat]
    refine ⟨?_, hzeros, hlen⟩
    obtain ⟨old, new, hs, hk⟩ := h.since
    refine ⟨old, new, hs, fun k => ?_⟩
    obtain ⟨he, -⟩ := (isSome_handle _ _ turn).mp (Option.isSome_iff_exists.mpr ⟨report, hr⟩)
    rw [hslot, hk, net_concat, he]
  · rw [tally_merged, reported_perm hp]
  · exact agrees_played ⟨rfl, rfl, fun _ _ hs => by cases hs⟩ he

/-- A place accepts a task, which spawns one at place 5 and takes it back, and one at home. Another
task is accepted, and both end; then one more comes and goes. -/
def twoReports : List Turn :=
  [⟨.materialize, 2⟩, ⟨.submit, 2⟩, ⟨.spawn ⟨5⟩, 3⟩, ⟨.unspawn ⟨5⟩, 3⟩, ⟨.spawn ⟨0⟩, 3⟩, ⟨.submit, 1⟩,
    ⟨.tell, 3⟩, ⟨.tell, 9⟩, ⟨.submit, 0⟩]

/-- The second report tells of the last task alone, and with the first it settles the root, also if
it arrives before it. An instance that knows of no place comes to the same counts. -/
theorem twoReports_reported :
    Settles (eventsOf (twoReports ++ [⟨.tell, 4⟩])) ∧
    (after ⟨1⟩ (twoReports ++ [⟨.tell, 4⟩])).slots = some [0, 0, 0, 0, 0, 0] ∧
    Agrees (after ⟨1⟩ twoReports) (after ⟨1⟩ (twoReports.map fun turn => ⟨turn.event, 0⟩)) ∧
    reports ⟨1⟩ (twoReports ++ [⟨.tell, 4⟩]) = [[1, -2, 0, 0, 0, 0], [0, -1, 0, 0, 0, 0]] ∧
    (merged ⟨0⟩ ⟨2, some [-1, 3]⟩ [([0, -1, 0, 0, 0, 0], 2), ([1, -2, 0, 0, 0, 0], 2)]).isReleased =
      true := by
  have hr : reports ⟨1⟩ (twoReports ++ [⟨.tell, 4⟩]) =
      [[1, -2, 0, 0, 0, 0], [0, -1, 0, 0, 0, 0]] := by decide
  obtain ⟨hsettles, hreport, -, -, hlikewise⟩ := changes_reported_once ⟨1⟩ twoReports
  refine ⟨(hsettles ⟨.tell, 4⟩).mp (by decide),
    (hreport ⟨.tell, 4⟩ [0, -1, 0, 0, 0, 0] (by decide)).2.1, (hlikewise _ (by decide)).2, hr, ?_⟩
  have hx : (⟨2, some [-1, 3]⟩ : Counters).Exact := fun slots hs => by
    cases hs
    decide
  obtain ⟨htally, hm⟩ := (changes_reported_once ⟨1⟩ (twoReports ++ [⟨.tell, 4⟩])).2.2.2.1 ⟨0⟩
    ⟨2, some [-1, 3]⟩ [([0, -1, 0, 0, 0, 0], 2), ([1, -2, 0, 0, 0, 0], 2)]
    (hr ▸ List.Perm.swap _ _ _)
  refine (hm hx).released.mpr fun k => ?_
  rw [htally, hr]
  rcases k with _ | _ | _ | _ | _ | _ | k <;> rfl

end Away

end Counters

end Quiescence
