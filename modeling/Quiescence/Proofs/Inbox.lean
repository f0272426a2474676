/-
# Inboxes lose no message and no wake

Anyone may send into an inbox, close it, look into it, and create, run and give
up receives, in any order. What comes out of it is what went in, in the same
order, and no message is left to lie while all the receives that could take it
sleep.

* `Session.run`: an inbox after any acts, with what it has accepted and handed
  out.
* `Wakeful`: where a receive waits, there is no permit, and for every message
  queued a receive has been woken that has not run since; but for so many
  wakes, those that an operation still owes.
* `Wakeful.wakeOne`, `Wakeful.forget`: a wake pays one of them, a receive that
  goes owes the one it was given.
* `Wakeful.act`: so no act leaves any owing.
* `Since`, `Session.run_unfinished`: the receives that are unfinished are those
  that were created, and neither given up nor finished since.
* `delivered_and_awake`: what a session delivers, and whom it keeps waiting.
-/
import Mathlib.Data.List.Induction
import Mathlib.Data.List.Nodup
import Mathlib.Data.Nat.Notation
import Quiescence.Inbox

namespace Quiescence

namespace Inbox

variable {α : Type} {b b' : Inbox α} {n m k : ℕ} {st : Standing} {rs rs' : List (ℕ × Standing)}

/-! ### Sessions -/

/-- What may be done with an inbox. -/
inductive Act (α : Type) where
  | send (a : α)
  | close
  | tryReceive
  | receive (n : ℕ)
  | poll (n : ℕ)
  | cancel (n : ℕ)
  deriving DecidableEq

/-- An inbox, with the messages it has accepted and those it has handed out, in order. -/
structure Session (α : Type) where
  inbox : Inbox α
  accepted : List α
  received : List α

namespace Session

def act (s : Session α) : Act α → Session α
  | .send a =>
    match s.inbox.send a with
    | .ok inbox => { s with inbox, accepted := s.accepted ++ [a] }
    | .error _ => s
  | .close => { s with inbox := s.inbox.close }
  | .tryReceive =>
    match s.inbox.tryReceive with
    | some (a, inbox) => { s with inbox, received := s.received ++ [a] }
    | none => s
  | .receive n => { s with inbox := s.inbox.receive n }
  | .poll n =>
    match s.inbox.poll n with
    | (.got a, inbox) => { s with inbox, received := s.received ++ [a] }
    | (_, inbox) => { s with inbox }
  | .cancel n => { s with inbox := (s.inbox.cancel n).2 }

/-- A new inbox after some acts. -/
def run (acts : List (Act α)) : Session α := acts.foldl act ⟨empty, [], []⟩

theorem run_concat (acts : List (Act α)) (a : Act α) : run (acts ++ [a]) = (run acts).act a := by
  simp [run]

end Session

/-- The act gives up the receive, or runs it to its end. -/
def Session.Ends (s : Session α) (n : ℕ) : Act α → Prop
  | .cancel m => m = n
  | .poll m => m = n ∧ (s.inbox.poll n).1 ≠ .pending
  | _ => False

/-- The receive was created, and no act since then was such a one. -/
def Since (acts : List (Act α)) (n : ℕ) (P : Session α → Act α → Prop) : Prop :=
  ∃ before after, acts = before ++ .receive n :: after ∧
    ∀ mid a rest, after = mid ++ a :: rest → ¬ P (Session.run (before ++ .receive n :: mid)) a

theorem not_since_nil {P : Session α → Act α → Prop} : ¬ Since [] n P := by
  rintro ⟨before, after, hacts, -⟩
  simp at hacts

theorem since_concat {acts : List (Act α)} {a : Act α} {P : Session α → Act α → Prop} :
    Since (acts ++ [a]) n P ↔ a = .receive n ∨ Since acts n P ∧ ¬ P (Session.run acts) a := by
  constructor
  · rintro ⟨before, after, hacts, hnone⟩
    rcases List.eq_nil_or_concat after with rfl | ⟨after, a', rfl⟩
    · exact .inl (List.singleton_inj.mp (List.append_inj' hacts rfl).2)
    · rw [List.concat_eq_append, ← List.cons_append, ← List.append_assoc] at hacts
      obtain ⟨rfl, ha⟩ := List.append_inj' hacts rfl
      obtain rfl := List.singleton_inj.mp ha
      refine .inr ⟨⟨before, after, rfl, fun mid x rest hafter => hnone mid x (rest ++ [a]) ?_⟩,
        hnone after a [] (List.concat_eq_append)⟩
      rw [List.concat_eq_append, hafter, List.append_assoc, List.cons_append]
  · rintro (rfl | ⟨⟨before, after, rfl, hnone⟩, ha⟩)
    · exact ⟨acts, [], rfl, fun mid a rest h => by simp at h⟩
    · refine ⟨before, after ++ [a], by simp, fun mid x rest hafter => ?_⟩
      rcases List.eq_nil_or_concat rest with rfl | ⟨rest, x', rfl⟩
      · obtain ⟨rfl, hx⟩ := List.append_inj' hafter rfl
        rwa [← List.singleton_inj.mp hx]
      · rw [List.concat_eq_append, ← List.cons_append, ← List.append_assoc] at hafter
        exact hnone mid x rest (List.append_inj' hafter rfl).1

/-! ### Wakes leave the queue alone -/

@[simp] theorem queue_wakeOne (b : Inbox α) : b.wakeOne.queue = b.queue := by
  unfold wakeOne
  split <;> rfl

@[simp] theorem closed_wakeOne (b : Inbox α) : b.wakeOne.closed = b.closed := by
  unfold wakeOne
  split <;> rfl

theorem cancel_parts (b : Inbox α) (n : ℕ) :
    (b.cancel n).2.queue = b.queue ∧ (b.cancel n).2.closed = b.closed := by
  unfold cancel
  split
  · exact ⟨rfl, rfl⟩
  · exact ⟨queue_wakeOne _, closed_wakeOne _⟩
  · exact ⟨rfl, rfl⟩

theorem send_open (h : b.closed = false) (a : α) :
    b.send a = .ok (wakeOne { b with queue := b.queue ++ [a] }) := by
  simp [send, h]

theorem send_closed (h : b.closed = true) (a : α) : b.send a = .error a := by
  simp [send, h]

/-! ### Receives -/

/-- Has the receive been woken, and not run since? -/
def Standing.isWoken : Standing → Bool
  | .woken _ => true
  | _ => false

/-- The number of receives that have been woken and have not run since. -/
def marked (b : Inbox α) : ℕ := b.receivers.countP (·.2.isWoken)

theorem wakeFirst_eq_none (h : wakeFirst rs = none) : ∀ r ∈ rs, r.2 ≠ .waiting := by
  fun_induction wakeFirst rs with
  | case1 => simp
  | case2 => cases h
  | case3 r rest hr ih =>
    rw [Option.map_eq_none_iff] at h
    refine List.forall_mem_cons.mpr ⟨fun hw => hr r.1 ?_, ih h⟩
    rw [← hw]

/-- The receive that is woken was waiting; the others stand as before. -/
theorem wakeFirst_eq_some (h : wakeFirst rs = some rs') :
    ∃ before n later, rs = before ++ (n, .waiting) :: later ∧
      rs' = before ++ (n, .woken true) :: later := by
  fun_induction wakeFirst rs generalizing rs' with
  | case1 => cases h
  | case2 n rest => exact ⟨[], n, rest, rfl, (Option.some.inj h).symm⟩
  | case3 r rest hr ih =>
    obtain ⟨rest', hrest, rfl⟩ := Option.map_eq_some_iff.mp h
    obtain ⟨before, n, later, rfl, rfl⟩ := ih hrest
    exact ⟨r :: before, n, later, rfl, rfl⟩

theorem notMem_forget (b : Inbox α) (n : ℕ) : n ∉ (b.forget n).receivers.map (·.1) := by
  simp [forget]

theorem standing?_eq_none (h : b.standing? n = none) : n ∉ b.receivers.map (·.1) := by
  unfold standing? at h
  simp only [Option.map_eq_none_iff, List.find?_eq_none, beq_iff_eq] at h
  rintro hn
  obtain ⟨r, hr, rfl⟩ := List.mem_map.mp hn
  exact h r hr rfl

/-- A receive stands once, and forgetting it leaves the others as they stand. -/
theorem standing?_eq_some (h : b.standing? n = some st) (hd : (b.receivers.map (·.1)).Nodup) :
    ∃ before later, b.receivers = before ++ (n, st) :: later ∧
      (b.forget n).receivers = before ++ later ∧ n ∉ (before ++ later).map (·.1) := by
  obtain ⟨⟨n', _⟩, hfind, rfl⟩ := Option.map_eq_some_iff.mp h
  obtain ⟨hn, before, later, hsplit, -⟩ := List.find?_eq_some_iff_append.mp hfind
  obtain rfl : n' = n := by simpa using hn
  have hnot : n' ∉ (before ++ later).map (·.1) := by
    rw [hsplit, List.map_append, List.map_cons] at hd
    rw [List.map_append]
    exact (List.nodup_middle.mp hd).notMem
  refine ⟨before, later, hsplit, ?_, hnot⟩
  have hkeep : ∀ r ∈ before ++ later, (r.1 != n') = true := fun r hr => by
    simpa using fun he => hnot (List.mem_map.mpr ⟨r, hr, he⟩)
  unfold forget
  simp only [hsplit, List.filter_append, List.filter_cons, bne_self_eq_false, Bool.false_eq_true,
    ↓reduceIte]
  rw [← List.filter_append, List.filter_eq_self.mpr hkeep]

theorem mem_of_standing? (h : b.standing? n = some st) : (n, st) ∈ b.receivers := by
  obtain ⟨⟨n', _⟩, hfind, rfl⟩ := Option.map_eq_some_iff.mp h
  obtain rfl : n' = n := by simpa using List.find?_some hfind
  exact List.mem_of_find?_eq_some hfind

theorem standing?_of_mem (h : (n, st) ∈ b.receivers) (hd : (b.receivers.map (·.1)).Nodup) :
    b.standing? n = some st := by
  cases hs : b.standing? n with
  | none => exact absurd (List.mem_map_of_mem h) (standing?_eq_none hs)
  | some st' =>
    have := List.inj_on_of_nodup_map hd h (mem_of_standing? hs) rfl
    rw [(Prod.mk.inj this).2]

/-- What running a receive can come to. -/
theorem poll_cases (b : Inbox α) (n : ℕ) :
    (b.standing? n = none ∧ b.poll n = (.gone, b)) ∨
    (b.standing? n = some .waiting ∧ b.poll n = (.pending, b)) ∨
    ∃ st, b.standing? n = some st ∧ st ≠ .waiting ∧
      ((∃ a queue, b.queue = a :: queue ∧ b.poll n = (.got a, { b.forget n with queue })) ∨
        (b.queue = [] ∧ b.closed = true ∧ b.poll n = (.ended, b.forget n)) ∨
        (b.queue = [] ∧ b.closed = false ∧ b.poll n = (.pending, { b.forget n with
          permit := false
          receivers := (b.forget n).receivers ++ [(n, .waiting)] }))) := by
  cases hs : b.standing? n with
  | none => exact .inl ⟨rfl, by simp [poll, hs]⟩
  | some st =>
    by_cases hw : st = .waiting
    · subst hw
      exact .inr (.inl ⟨rfl, by simp [poll, hs]⟩)
    · refine .inr (.inr ⟨st, rfl, hw, ?_⟩)
      cases hq : b.queue with
      | cons a queue => exact .inl ⟨a, queue, rfl, by simp [poll, hs, hq]⟩
      | nil =>
        cases hc : b.closed with
        | true => exact .inr (.inl ⟨rfl, rfl, by simp [poll, hs, hq, hc]⟩)
        | false => exact .inr (.inr ⟨rfl, rfl, by simp [poll, forget, hs, hq, hc]⟩)

/-! ### Which receives are unfinished -/

/-- The same receives are unfinished, and the same of them have not run yet. -/
structure Keeps (b b' : Inbox α) : Prop where
  unfinished : ∀ n, (b'.standing? n).isSome ↔ (b.standing? n).isSome
  fresh : ∀ n, b'.standing? n = some .fresh ↔ b.standing? n = some .fresh

theorem Keeps.of_receivers (h : b'.receivers = b.receivers) : Keeps b b' := by
  have hs : b'.standing? = b.standing? := by
    unfold standing?
    rw [h]
  exact ⟨fun n => by rw [hs], fun n => by rw [hs]⟩

theorem Keeps.trans {b'' : Inbox α} (h : Keeps b b') (h' : Keeps b' b'') : Keeps b b'' :=
  ⟨fun n => (h'.unfinished n).trans (h.unfinished n), fun n => (h'.fresh n).trans (h.fresh n)⟩

/-- Each receive stands as before, but for one that has waited, which is woken. -/
theorem standing?_wakeOne (b : Inbox α) (n : ℕ) : b.wakeOne.standing? n = b.standing? n ∨
    b.standing? n = some .waiting ∧ b.wakeOne.standing? n = some (.woken true) := by
  unfold wakeOne
  split
  · rename_i rs hw
    obtain ⟨before, k, later, hold, rfl⟩ := wakeFirst_eq_some hw
    unfold standing?
    rw [hold, List.find?_append, List.find?_append]
    cases before.find? fun r => r.1 == n with
    | some r => exact .inl rfl
    | none =>
      by_cases hk : k = n
      · exact .inr (by simp [hk])
      · exact .inl (by simp [hk])
  · exact .inl rfl

theorem keeps_wakeOne (b : Inbox α) : Keeps b b.wakeOne := by
  refine ⟨fun n => ?_, fun n => ?_⟩ <;> rcases standing?_wakeOne b n with h | ⟨h, h'⟩
  · rw [h]
  · simp [h, h']
  · rw [h]
  · simp [h, h']

theorem standing?_wakeAll (b : Inbox α) (n : ℕ) : b.wakeAll.standing? n =
    (b.standing? n).map fun st => if st = .waiting then .woken false else st := by
  unfold standing? wakeAll
  have hkey : ((fun r : ℕ × Standing => r.1 == n) ∘
      fun r => if r.2 = .waiting then (r.1, .woken false) else r) = fun r => r.1 == n := by
    funext r
    simp only [Function.comp_apply]
    split_ifs <;> rfl
  rw [List.find?_map, hkey, Option.map_map, Option.map_map]
  congr 1
  funext r
  simp only [Function.comp_apply]
  split_ifs <;> rfl

theorem keeps_wakeAll (b : Inbox α) : Keeps b b.wakeAll := by
  refine ⟨fun n => ?_, fun n => ?_⟩ <;> rw [standing?_wakeAll]
  · rw [Option.isSome_map]
  · cases b.standing? n with
    | none => simp
    | some st => cases st <;> simp

@[simp] theorem standing?_forget (b : Inbox α) (m n : ℕ) :
    (b.forget m).standing? n = if n = m then none else b.standing? n := by
  unfold standing? forget
  rw [List.find?_filter]
  split_ifs with h
  · subst h
    simp
  · congr 2
    funext r
    by_cases hr : r.1 = n <;> simp [hr, h]

/-- A receive joins the others. -/
theorem standing?_concat (h : m ∉ b.receivers.map (·.1)) (hb : b'.receivers = b.receivers ++ [(m, st)])
    (n : ℕ) : b'.standing? n = if n = m then some st else b.standing? n := by
  unfold standing?
  rw [hb, List.find?_append]
  split_ifs with hn
  · subst hn
    rw [List.find?_eq_none.mpr fun r hr => ?_]
    · simp
    · simpa using fun he => h (List.mem_map.mpr ⟨r, hr, he⟩)
  · simp [Ne.symm hn]

/-- A receive that is given up is forgotten. -/
theorem keeps_cancel (b : Inbox α) (m : ℕ) : Keeps (b.forget m) (b.cancel m).2 := by
  unfold cancel
  split
  · rename_i hs
    have hsame : ∀ n, b.standing? n = (b.forget m).standing? n := fun n => by
      rw [standing?_forget]
      split_ifs with hn
      · rw [hn, hs]
      · rfl
    exact ⟨fun n => by rw [hsame], fun n => by rw [hsame]⟩
  · exact keeps_wakeOne _
  · exact .of_receivers rfl

theorem notMem_cancel (b : Inbox α) (n : ℕ) : n ∉ (b.cancel n).2.receivers.map (·.1) := by
  refine standing?_eq_none (Option.not_isSome_iff_eq_none.mp fun hs => ?_)
  rw [(keeps_cancel b n).unfinished, standing?_forget, if_pos rfl] at hs
  cases hs

theorem standing?_receive (b : Inbox α) (m n : ℕ) : (b.receive m).standing? n =
    if n = m then some .fresh else (b.cancel m).2.standing? n :=
  standing?_concat (notMem_cancel b m) rfl n

theorem isSome_cancel (b : Inbox α) (m n : ℕ) :
    ((b.cancel m).2.standing? n).isSome ↔ n ≠ m ∧ (b.standing? n).isSome := by
  rw [(keeps_cancel b m).unfinished, standing?_forget]
  split_ifs with h <;> simp [h]

theorem fresh_cancel (b : Inbox α) (m n : ℕ) :
    (b.cancel m).2.standing? n = some .fresh ↔ n ≠ m ∧ b.standing? n = some .fresh := by
  rw [(keeps_cancel b m).fresh, standing?_forget]
  split_ifs with h <;> simp [h]

/-- A receive that has run waits, or is finished. -/
theorem standing?_poll_self (b : Inbox α) (n : ℕ) :
    ((b.poll n).1 = .pending ∧ (b.standing? n).isSome ∧ (b.poll n).2.standing? n = some .waiting) ∨
      (b.poll n).1 ≠ .pending ∧ (b.poll n).2.standing? n = none := by
  have hgone := standing?_forget b n n
  rw [if_pos rfl] at hgone
  rcases poll_cases b n with ⟨hs, hp⟩ | ⟨hs, hp⟩ |
    ⟨st, hs, -, ⟨a, queue, -, hp⟩ | ⟨-, -, hp⟩ | ⟨-, -, hp⟩⟩ <;> rw [hp]
  · exact .inr ⟨nofun, hs⟩
  · exact .inl ⟨rfl, by rw [hs]; rfl, hs⟩
  · exact .inr ⟨nofun, hgone⟩
  · exact .inr ⟨nofun, hgone⟩
  · exact .inl ⟨rfl, by rw [hs]; rfl, (standing?_concat (notMem_forget b n) rfl n).trans (if_pos rfl)⟩

theorem standing?_poll_ne (b : Inbox α) (h : n ≠ m) : (b.poll m).2.standing? n = b.standing? n := by
  have hother := standing?_forget b m n
  rw [if_neg h] at hother
  rcases poll_cases b m with ⟨-, hp⟩ | ⟨-, hp⟩ |
    ⟨st, -, -, ⟨a, queue, -, hp⟩ | ⟨-, -, hp⟩ | ⟨-, -, hp⟩⟩ <;> rw [hp]
  · exact hother
  · exact hother
  · exact ((standing?_concat (notMem_forget b m) rfl n).trans (if_neg h)).trans hother

theorem Session.inbox_poll (s : Session α) (m : ℕ) :
    (s.act (.poll m)).inbox = (s.inbox.poll m).2 := by
  unfold act
  dsimp only
  split <;> rename_i hp <;> rw [hp]

/-- Sends, closing and looking into the inbox leave the receives as they are, but for those they
wake. -/
theorem Session.keeps_send (s : Session α) (x : α) : Keeps s.inbox (s.act (.send x)).inbox := by
  cases hc : s.inbox.closed with
  | true => simpa [act, send_closed hc] using Keeps.of_receivers rfl
  | false =>
    have hq : Keeps s.inbox { s.inbox with queue := s.inbox.queue ++ [x] } := .of_receivers rfl
    simpa only [act, send_open hc] using hq.trans (keeps_wakeOne _)

theorem keeps_close (b : Inbox α) : Keeps b b.close := by
  have hc : Keeps b { b with closed := true } := .of_receivers rfl
  exact (hc.trans (keeps_wakeAll _)).trans (keeps_wakeOne _)

theorem Session.keeps_tryReceive (s : Session α) : Keeps s.inbox (s.act .tryReceive).inbox := by
  refine .of_receivers ?_
  cases hq : s.inbox.queue <;> simp [act, Inbox.tryReceive, hq]

/-- What is unfinished after an act: a receive that it creates, and those there were that it does not
end. -/
theorem Session.act_unfinished (s : Session α) (a : Act α) (n : ℕ) :
    ((s.act a).inbox.standing? n).isSome ↔
      a = .receive n ∨ (s.inbox.standing? n).isSome ∧ ¬ s.Ends n a := by
  cases a with
  | send x => simp [Ends, (s.keeps_send x).unfinished]
  | close => simp [Ends, act, (keeps_close s.inbox).unfinished]
  | tryReceive => simp [Ends, s.keeps_tryReceive.unfinished]
  | receive m =>
    simp only [act, standing?_receive, Ends, not_false_eq_true, and_true, Act.receive.injEq]
    split_ifs with h
    · simp [h]
    · rw [isSome_cancel]
      simp [h, Ne.symm h]
  | poll m =>
    rw [inbox_poll]
    by_cases h : m = n
    · subst h
      rcases standing?_poll_self s.inbox m with ⟨hp, hs, hs'⟩ | ⟨hp, hs'⟩
      · simp [Ends, hp, hs, hs']
      · simp [Ends, hp, hs']
    · simp [Ends, h, standing?_poll_ne s.inbox (Ne.symm h)]
  | cancel m =>
    simp only [act, isSome_cancel, Ends, reduceCtorEq, false_or]
    rw [and_comm, ne_comm]

theorem Session.act_fresh (s : Session α) (a : Act α) (n : ℕ) :
    (s.act a).inbox.standing? n = some .fresh ↔
      a = .receive n ∨ s.inbox.standing? n = some .fresh ∧ ¬ (a = .poll n ∨ a = .cancel n) := by
  cases a with
  | send x => simp [(s.keeps_send x).fresh]
  | close => simp [act, (keeps_close s.inbox).fresh]
  | tryReceive => simp [s.keeps_tryReceive.fresh]
  | receive m =>
    simp only [act, standing?_receive, Act.receive.injEq]
    split_ifs with h
    · simp [h]
    · rw [fresh_cancel]
      simp [h, Ne.symm h]
  | poll m =>
    rw [inbox_poll]
    by_cases h : m = n
    · subst h
      rcases standing?_poll_self s.inbox m with ⟨hp, hs, hs'⟩ | ⟨hp, hs'⟩ <;> simp [hs']
    · simp [h, standing?_poll_ne s.inbox (Ne.symm h)]
  | cancel m =>
    simp only [act, fresh_cancel, reduceCtorEq, false_or, Act.cancel.injEq]
    rw [and_comm, ne_comm]

/-- So the unfinished receives are those that were created, and neither given up nor finished since. -/
theorem Session.run_unfinished (acts : List (Act α)) (n : ℕ) :
    ((run acts).inbox.standing? n).isSome ↔ Since acts n fun s a => s.Ends n a := by
  induction acts using List.reverseRecOn with
  | nil => exact iff_of_false (by simp [run, empty, standing?]) not_since_nil
  | append_singleton acts a ih => rw [run_concat, act_unfinished, since_concat, ih]

theorem Session.run_fresh (acts : List (Act α)) (n : ℕ) :
    (run acts).inbox.standing? n = some .fresh ↔
      Since acts n fun _ a => a = .poll n ∨ a = .cancel n := by
  induction acts using List.reverseRecOn with
  | nil => exact iff_of_false (by simp [run, empty, standing?]) not_since_nil
  | append_singleton acts a ih => rw [run_concat, act_fresh, since_concat, ih]

/-! ### Nobody is kept waiting in vain -/

/-- Each receive stands once. In a closed inbox none waits, and only then has one been woken along
with others. Where one waits, there is no permit, and each message queued has a receive that has
been woken for it, but for `owed` of them. -/
structure Wakeful (b : Inbox α) (owed : ℕ) : Prop where
  distinct : (b.receivers.map (·.1)).Nodup
  closed : b.closed = true → ∀ r ∈ b.receivers, r.2 ≠ .waiting
  together : ∀ r ∈ b.receivers, r.2 = .woken false → b.closed = true
  served : ∀ r ∈ b.receivers, r.2 = .waiting →
    b.permit = false ∧ b.queue.length ≤ b.marked + owed

theorem wakeful_empty : Wakeful (empty : Inbox α) 0 where
  distinct := List.nodup_nil
  closed := nofun
  together := nofun
  served := nofun

namespace Wakeful

/-- A wake pays one that is owed. -/
theorem wakeOne (h : Wakeful b (k + 1)) : Wakeful b.wakeOne k := by
  unfold Inbox.wakeOne
  cases hw : wakeFirst b.receivers with
  | none =>
    exact
      { distinct := h.distinct
        closed := h.closed
        together := h.together
        served := fun r hr hwait => absurd hwait (wakeFirst_eq_none hw r hr) }
  | some rs =>
    obtain ⟨before, n, later, hold, rfl⟩ := wakeFirst_eq_some hw
    have hmem : ∀ r ∈ before ++ (n, Standing.woken true) :: later,
        r = (n, .woken true) ∨ r ∈ b.receivers := fun r hr => by
      rw [hold]
      simp only [List.mem_append, List.mem_cons] at hr ⊢
      tauto
    have hwait : (n, Standing.waiting) ∈ b.receivers := by simp [hold]
    obtain ⟨hpermit, hqueue⟩ := h.served _ hwait rfl
    refine ⟨?_, fun hc => absurd rfl (h.closed hc _ hwait), fun r hr hfalse => ?_,
      fun r hr hw => ⟨hpermit, ?_⟩⟩
    · have hdistinct := h.distinct
      rw [hold] at hdistinct
      simpa using hdistinct
    · rcases hmem r hr with rfl | hr
      · cases hfalse
      · exact h.together r hr hfalse
    · unfold marked at hqueue ⊢
      rw [hold, List.countP_append, List.countP_cons_of_neg (by simp [Standing.isWoken])] at hqueue
      rw [List.countP_append, List.countP_cons_of_pos (by rfl)]
      show b.queue.length ≤ _
      omega

/-- A receive that goes owes the wake it has been given. -/
theorem forget (h : Wakeful b 0) (hs : b.standing? n = some st) :
    Wakeful (b.forget n) (if st = .woken true then 1 else 0) := by
  obtain ⟨before, later, hold, hnew, -⟩ := standing?_eq_some hs h.distinct
  have hsub : ∀ r ∈ (b.forget n).receivers, r ∈ b.receivers := fun r hr => by
    rw [hnew] at hr
    rw [hold]
    simp only [List.mem_append, List.mem_cons] at hr ⊢
    tauto
  refine ⟨?_, fun hc r hr => h.closed hc r (hsub r hr), fun r hr => h.together r (hsub r hr),
    fun r hr hw => ?_⟩
  · have hdistinct := h.distinct
    rw [hold, List.map_append, List.map_cons] at hdistinct
    rw [hnew, List.map_append]
    exact (List.nodup_middle.mp hdistinct).of_cons
  · obtain ⟨hpermit, hqueue⟩ := h.served r (hsub r hr) hw
    refine ⟨hpermit, ?_⟩
    have hopen : st ≠ .woken false := fun hst => by
      subst hst
      exact h.closed (h.together _ (mem_of_standing? hs) rfl) r (hsub r hr) hw
    unfold marked at hqueue ⊢
    rw [hold, List.countP_append, List.countP_cons] at hqueue
    rw [hnew, List.countP_append]
    show b.queue.length ≤ _
    rcases st with _ | _ | _ | _ <;> simp_all [Standing.isWoken]
    omega

theorem send (h : Wakeful b 0) (a : α) : Wakeful { b with queue := b.queue ++ [a] } 1 where
  distinct := h.distinct
  closed := h.closed
  together := h.together
  served r hr hw := by
    obtain ⟨hpermit, hqueue⟩ := h.served r hr hw
    refine ⟨hpermit, ?_⟩
    rw [List.length_append]
    exact Nat.add_le_add_right hqueue 1

theorem close (h : Wakeful b 0) : Wakeful b.close 0 := by
  refine wakeOne ?_
  have hnone : ∀ r ∈ b.receivers.map
      (fun r => if r.2 = .waiting then (r.1, Standing.woken false) else r), r.2 ≠ .waiting := by
    intro r hr
    obtain ⟨r, -, rfl⟩ := List.mem_map.mp hr
    split_ifs with hw
    · nofun
    · exact hw
  refine ⟨?_, fun _ => hnone, fun _ _ _ => rfl, fun r hr hw => absurd hw (hnone r hr)⟩
  have hkeys : (b.receivers.map
      (fun r => if r.2 = .waiting then (r.1, Standing.woken false) else r)).map (·.1) =
      b.receivers.map (·.1) := by
    rw [List.map_map]
    refine List.map_congr_left fun r _ => ?_
    simp only [Function.comp_apply]
    split_ifs <;> rfl
  exact hkeys ▸ h.distinct

theorem cancel (h : Wakeful b 0) (n : ℕ) : Wakeful (b.cancel n).2 0 := by
  unfold Inbox.cancel
  split
  · exact h
  · rename_i hs
    exact wakeOne (h.forget hs)
  · rename_i st hne hs
    have := h.forget hs
    rwa [if_neg fun hst => hne hst] at this

theorem receive (h : Wakeful b 0) (n : ℕ) : Wakeful (b.receive n) 0 := by
  have hc := h.cancel n
  have hn := notMem_cancel b n
  have hmem : ∀ r ∈ (b.receive n).receivers, r.2 ≠ .fresh → r ∈ (b.cancel n).2.receivers :=
    fun r hr hf => (List.mem_append.mp hr).resolve_right fun hr' => hf (by
      rw [List.mem_singleton.mp hr'])
  refine ⟨?_, fun hcl r hr hw => hc.closed hcl r (hmem r hr (by rw [hw]; nofun)) hw,
    fun r hr hw => hc.together r (hmem r hr (by rw [hw]; nofun)) hw, fun r hr hw => ?_⟩
  · unfold Inbox.receive
    rw [List.map_append]
    exact List.nodup_append'.mpr ⟨hc.distinct, List.nodup_singleton n, by simpa using hn⟩
  · obtain ⟨hpermit, hqueue⟩ := hc.served r (hmem r hr (by rw [hw]; nofun)) hw
    refine ⟨hpermit, ?_⟩
    have hmarked : (b.receive n).marked = (b.cancel n).2.marked := by
      simp [marked, Inbox.receive, Standing.isWoken]
    rw [hmarked]
    exact hqueue

/-- Where none waits, nothing is owed. -/
theorem of_closed (h : Wakeful b k) (hc : b.closed = true) : Wakeful b 0 :=
  { h with served := fun r hr hw => absurd hw (h.closed hc r hr) }

theorem poll (h : Wakeful b 0) (n : ℕ) : Wakeful (b.poll n).2 0 := by
  rcases poll_cases b n with ⟨-, hp⟩ | ⟨-, hp⟩ | ⟨st, hs, -, hcase⟩
  · exact hp ▸ h
  · exact hp ▸ h
  · have hf := h.forget hs
    rcases hcase with ⟨a, queue, hq, hp⟩ | ⟨-, hc, hp⟩ | ⟨hq, hc, hp⟩ <;> rw [hp]
    · refine ⟨hf.distinct, hf.closed, hf.together, fun r hr hw => ?_⟩
      obtain ⟨hpermit, hqueue⟩ := hf.served r hr hw
      have hlen : (b.forget n).queue.length = queue.length + 1 := congrArg List.length hq
      refine ⟨hpermit, ?_⟩
      show queue.length ≤ (b.forget n).marked + 0
      split_ifs at hqueue <;> omega
    · exact hf.of_closed hc
    · -- the queue is empty, so nobody waits in vain
      have hopen : (b.forget n).closed = false := hc
      refine ⟨?_, fun hcl => ?_, fun r hr hw => ?_, fun r hr hw => ⟨rfl, ?_⟩⟩
      · rw [List.map_append]
        exact List.nodup_append'.mpr
          ⟨hf.distinct, List.nodup_singleton n, by simpa using notMem_forget b n⟩
      · cases hopen.symm.trans hcl
      · rcases List.mem_append.mp hr with hr | hr
        · exact hf.together r hr hw
        · rw [List.mem_singleton.mp hr] at hw
          cases hw
      · have hlen : (b.forget n).queue.length = 0 := congrArg List.length hq
        exact Nat.le_trans (Nat.le_of_eq hlen) (Nat.zero_le _)

/-- No act leaves a wake owing. -/
theorem act {s : Session α} (h : Wakeful s.inbox 0) (a : Act α) : Wakeful (s.act a).inbox 0 := by
  cases a with
  | send a =>
    cases hc : s.inbox.closed with
    | true => simpa [Session.act, send_closed hc] using h
    | false => simpa [Session.act, send_open hc] using (h.send a).wakeOne
  | close => exact h.close
  | tryReceive =>
    cases hq : s.inbox.queue with
    | nil => simpa [Session.act, tryReceive, hq] using h
    | cons a queue =>
      simp only [Session.act, tryReceive, hq]
      refine { h with served := fun r hr hw => (h.served r hr hw).imp_right fun hqueue => ?_ }
      rw [hq] at hqueue
      exact Nat.le_of_succ_le hqueue
  | receive n => exact h.receive n
  | poll n =>
    have hp := h.poll n
    simp only [Session.act]
    split <;> rename_i hpoll <;> rw [hpoll] at hp <;> exact hp
  | cancel n => exact h.cancel n

theorem run (acts : List (Act α)) : Wakeful (Session.run acts).inbox 0 := by
  induction acts using List.reverseRecOn with
  | nil => exact wakeful_empty
  | append_singleton acts a ih =>
    rw [Session.run_concat]
    exact ih.act a

end Wakeful

/-! ### What comes out -/

/-- A receive that has been woken or has not run yet takes a message that is queued. -/
theorem poll_got (hs : b.standing? n = some st) (hw : st ≠ .waiting) (hq : b.queue ≠ []) :
    ∃ a, (b.poll n).1 = .got a := by
  rcases poll_cases b n with ⟨hn, -⟩ | ⟨hn, -⟩ | ⟨_, -, -, ⟨a, _, -, hp⟩ | ⟨he, -⟩ | ⟨he, -⟩⟩
  · cases hs.symm.trans hn
  · cases hs.symm.trans hn
    exact absurd rfl hw
  · exact ⟨a, by rw [hp]⟩
  · exact absurd he hq
  · exact absurd he hq

theorem Session.act_balance (s : Session α) (a : Act α)
    (h : s.received ++ s.inbox.queue = s.accepted) :
    (s.act a).received ++ (s.act a).inbox.queue = (s.act a).accepted := by
  cases a with
  | send a =>
    cases hc : s.inbox.closed with
    | true => simpa [act, send_closed hc] using h
    | false => simp [act, send_open hc, ← h]
  | close => simpa [act, Inbox.close, wakeAll] using h
  | tryReceive =>
    cases hq : s.inbox.queue with
    | nil => simpa [act, Inbox.tryReceive, hq] using h
    | cons a queue => simpa [act, Inbox.tryReceive, hq] using h
  | receive n => simpa [act, Inbox.receive, cancel_parts] using h
  | poll n =>
    rcases poll_cases s.inbox n with ⟨-, hp⟩ | ⟨-, hp⟩ |
      ⟨_, -, -, ⟨a, queue, hq, hp⟩ | ⟨-, -, hp⟩ | ⟨-, -, hp⟩⟩ <;> simp only [act, hp]
    · exact h
    · exact h
    · rw [← h, hq, List.append_assoc, List.singleton_append]
    · exact h
    · exact h
  | cancel n => simpa [act, cancel_parts] using h

theorem Session.closed_act (s : Session α) (a : Act α) :
    (s.act a).inbox.closed = true ↔ s.inbox.closed = true ∨ a = .close := by
  cases a with
  | send a =>
    cases hc : s.inbox.closed with
    | true => simp [act, send_closed hc, hc]
    | false => simp [act, send_open hc, hc]
  | close => simp [act, Inbox.close, wakeAll]
  | tryReceive => cases hq : s.inbox.queue <;> simp [act, Inbox.tryReceive, hq]
  | receive n => simp [act, Inbox.receive, cancel_parts]
  | poll n =>
    rcases poll_cases s.inbox n with ⟨-, hp⟩ | ⟨-, hp⟩ |
      ⟨_, -, -, ⟨_, _, -, hp⟩ | ⟨-, -, hp⟩ | ⟨-, -, hp⟩⟩ <;> simp [act, hp, forget]
  | cancel n => simp [act, cancel_parts]

theorem Session.run_balance (acts : List (Act α)) :
    (run acts).received ++ (run acts).inbox.queue = (run acts).accepted := by
  induction acts using List.reverseRecOn with
  | nil => rfl
  | append_singleton acts a ih =>
    rw [run_concat]
    exact act_balance _ a ih

theorem Session.run_closed (acts : List (Act α)) :
    (run acts).inbox.closed = true ↔ .close ∈ acts := by
  induction acts using List.reverseRecOn with
  | nil => simp [run, empty]
  | append_singleton acts a ih =>
    rw [run_concat, closed_act, ih, List.mem_append, List.mem_singleton, eq_comm (a := a)]

theorem poll_ended (h : (b.poll n).1 = .ended) : b.closed = true ∧ b.queue = [] := by
  rcases poll_cases b n with ⟨-, hp⟩ | ⟨-, hp⟩ |
    ⟨_, -, -, ⟨_, _, -, hp⟩ | ⟨hq, hc, -⟩ | ⟨-, -, hp⟩⟩
  case inr.inr.inr.inl => exact ⟨hc, hq⟩
  all_goals
    rw [hp] at h
    cases h

/-- In a closed inbox none waits, so a receive that runs is finished. -/
theorem Wakeful.poll_closed (h : Wakeful b k) (hc : b.closed = true) (n : ℕ) :
    (b.poll n).1 ≠ .pending := fun hn => by
  rcases poll_cases b n with ⟨-, hp⟩ | ⟨hs, -⟩ |
    ⟨_, -, -, ⟨_, _, -, hp⟩ | ⟨-, -, hp⟩ | ⟨-, ho, -⟩⟩
  case inr.inl => exact h.closed hc _ (mem_of_standing? hs) rfl
  case inr.inr.inr.inr => cases hc.symm.trans ho
  all_goals
    rw [hp] at hn
    cases hn

/-- Where a receive waits while a message is queued, another has been woken for the message. -/
theorem Wakeful.poll_awake (h : Wakeful b 0) (hq : b.queue ≠ []) (hs : b.standing? n = some st) :
    ∃ m a, (b.poll m).1 = .got a := by
  by_cases hwait : st = .waiting
  · obtain ⟨-, hle⟩ := h.served _ (mem_of_standing? hs) hwait
    have hpos : 0 < b.marked := Nat.lt_of_lt_of_le (List.length_pos_iff.mpr hq) hle
    obtain ⟨⟨m, st'⟩, hm, hwoken⟩ := List.countP_pos_iff.mp hpos
    refine ⟨m, poll_got (standing?_of_mem hm h.distinct) (fun he => ?_) hq⟩
    subst he
    cases hwoken
  · exact ⟨n, poll_got hs hwait hq⟩

/-- What a session delivers after some acts, and whom it keeps waiting. -/
structure Session.Delivers (s : Session α) (acts : List (Act α)) : Prop where
  /-- What has been handed out and what is queued are the messages accepted, in order. -/
  order : s.received ++ s.inbox.queue = s.accepted
  closed : s.inbox.closed = true ↔ .close ∈ acts
  /-- A message is accepted as long as the inbox is open, and handed back afterwards. -/
  accepts : ∀ a, if s.inbox.closed then s.inbox.send a = .error a
    else ∃ b, s.inbox.send a = .ok b
  ended : ∀ n, (s.inbox.poll n).1 = .ended → s.inbox.closed = true ∧ s.inbox.queue = []
  /-- In a closed inbox, no receive that runs has to wait. -/
  finishes : s.inbox.closed = true → ∀ n, (s.inbox.poll n).1 ≠ .pending
  /-- The unfinished receives are those that were created, and neither given up nor finished since. -/
  unfinished : ∀ n, (s.inbox.standing? n).isSome ↔ Since acts n fun t a => t.Ends n a
  /-- Those that have not run yet were not run since either. -/
  fresh : ∀ n, s.inbox.standing? n = some .fresh ↔
    Since acts n fun _ a => a = .poll n ∨ a = .cancel n
  /-- Where a receive waits, each message queued has one that has been woken. -/
  served : ∀ n, s.inbox.standing? n = some .waiting →
    s.inbox.permit = false ∧ s.inbox.queue.length ≤ s.inbox.marked
  /-- Where a message is queued and a receive is unfinished, some receive would get one now. -/
  awake : s.inbox.queue ≠ [] → ∀ n, (s.inbox.standing? n).isSome →
    ∃ m a, (s.inbox.poll m).1 = .got a

/-- **An inbox delivers exactly what it accepts, and loses no wake**, whatever is done with it. -/
theorem delivered_and_awake (acts : List (Act α)) : (Session.run acts).Delivers acts where
  order := Session.run_balance acts
  closed := Session.run_closed acts
  accepts a := by
    split_ifs with hc
    · exact send_closed hc a
    · exact ⟨_, send_open (by simpa using hc) a⟩
  ended _ := poll_ended
  finishes hc := (Wakeful.run acts).poll_closed hc
  unfinished := Session.run_unfinished acts
  fresh := Session.run_fresh acts
  served _ hn := (Wakeful.run acts).served _ (mem_of_standing? hn) rfl
  awake hq n hn := by
    obtain ⟨st, hst⟩ := Option.isSome_iff_exists.mp hn
    exact (Wakeful.run acts).poll_awake hq hst

end Inbox

end Quiescence
