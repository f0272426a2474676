/-
# Diagnostics lose nothing and keep the order

Failures are recorded for instances, and all that is retained is dumped now and
then. What was recorded for an instance is found in the entries that were handed
out and in the one that is retained, in the order in which it was recorded.

* `listed`: the failures that some entries hold, in order.
* `Session.run`: the diagnostics after any acts, with what each dump handed out.
* `Spans.run`: what the acts recorded, up to each dump and after the last.
* `Gathers`: what the entries of a dump, or those retained, say of what was
  recorded since the dump before.
* `Gathers.record`: one more failure that is recorded is gathered as well.
* `kept_in_order`: what is handed out and what is retained, after any acts.
-/
import Mathlib.Data.Finset.Card
import Mathlib.Data.Finset.Dedup
import Mathlib.Data.List.Induction
import Mathlib.Data.List.Nodup
import Mathlib.Tactic.SplitIfs
import Quiescence.Diagnostics

namespace Quiescence

namespace Diagnostics

variable {s t : ℕ} {label : String} {f : Failure} {es : List Entry}

/-! ### Entries -/

/-- The failures of some entries, each with the instance that it was recorded for. -/
def listed (es : List Entry) : List (ℕ × Failure) :=
  es.flatMap fun e => e.failures.map fun f => (e.serial, f)

@[simp] theorem listed_nil : listed [] = [] := rfl

@[simp] theorem listed_cons (e : Entry) (es : List Entry) :
    listed (e :: es) = e.failures.map (fun f => (e.serial, f)) ++ listed es := rfl

@[simp] theorem listed_append (a b : List Entry) : listed (a ++ b) = listed a ++ listed b :=
  List.flatMap_append ..

theorem serials_recordIn (s : ℕ) (label : String) (f : Failure) (es : List Entry) :
    (recordIn s label f es).map (·.serial) =
      if s ∈ es.map (·.serial) then es.map (·.serial) else es.map (·.serial) ++ [s] := by
  induction es with
  | nil => rfl
  | cons e es ih =>
    unfold recordIn
    by_cases he : e.serial = s
    · simp [he]
    · rw [if_neg he, List.map_cons, ih]
      simp only [List.map_cons, List.mem_cons, Ne.symm he, false_or]
      split_ifs <;> rfl

/-- There is still one entry for each instance. -/
theorem nodup_recordIn (h : (es.map (·.serial)).Nodup) (s : ℕ) (label : String) (f : Failure) :
    ((recordIn s label f es).map (·.serial)).Nodup := by
  rw [serials_recordIn]
  split_ifs with hs
  · exact h
  · exact List.nodup_append.mpr ⟨h, List.nodup_singleton s, fun a ha b hb hab =>
      hs (List.mem_singleton.mp hb ▸ hab ▸ ha)⟩

theorem listed_filter_of_notMem (h : t ∉ es.map (·.serial)) : (listed es).filter (·.1 = t) = [] := by
  refine List.filter_eq_nil_iff.mpr fun e he => ?_
  obtain ⟨x, hx, he⟩ := List.mem_flatMap.mp he
  obtain ⟨f, -, rfl⟩ := List.mem_map.mp he
  simp only [decide_eq_true_eq]
  rintro rfl
  exact h (List.mem_map_of_mem hx)

/-- The failure comes after those that were recorded for the same instance. -/
theorem listed_recordIn (h : (es.map (·.serial)).Nodup) (s : ℕ) (label : String) (f : Failure) (t : ℕ) :
    (listed (recordIn s label f es)).filter (·.1 = t) =
      (listed es).filter (·.1 = t) ++ if t = s then [(s, f)] else [] := by
  induction es with
  | nil =>
    by_cases hts : t = s
    · simp [recordIn, hts]
    · simp [recordIn, hts, Ne.symm hts]
  | cons e es ih =>
    obtain ⟨he, hes⟩ := List.nodup_cons.mp h
    unfold recordIn
    by_cases hs : e.serial = s
    · subst hs
      rw [if_pos rfl]
      simp only [listed_cons, List.map_append, List.filter_append]
      by_cases hts : t = e.serial
      · subst hts
        simp [listed_filter_of_notMem he]
      · simp [hts, Ne.symm hts]
    · rw [if_neg hs, listed_cons, listed_cons, List.filter_append, List.filter_append, ih hes,
        List.append_assoc]

theorem listed_filter_of_mem {e : Entry} (h : (es.map (·.serial)).Nodup) (he : e ∈ es) :
    (listed es).filter (·.1 = e.serial) = e.failures.map fun f => (e.serial, f) := by
  induction es with
  | nil => cases he
  | cons x es ih =>
    obtain ⟨hx, hes⟩ := List.nodup_cons.mp h
    rw [listed_cons, List.filter_append]
    rcases List.mem_cons.mp he with rfl | he
    · rw [listed_filter_of_notMem hx, List.append_nil]
      exact List.filter_eq_self.mpr (by simp)
    · have hne : x.serial ≠ e.serial := fun heq => hx (List.mem_map.mpr ⟨e, he, heq.symm⟩)
      rw [ih hes he, List.filter_eq_nil_iff.mpr (by simp [hne]), List.nil_append]

/-- An entry of another instance was there before; that of the instance has the new label, and the
failure after those that it had. -/
theorem of_mem_recordIn {e : Entry} (h : (es.map (·.serial)).Nodup) (he : e ∈ recordIn s label f es) :
    (e ∈ es ∧ e.serial ≠ s) ∨
      (∃ x ∈ es, x.serial = s ∧ e = ⟨s, label, x.failures ++ [f]⟩) ∨
      (s ∉ es.map (·.serial) ∧ e = ⟨s, label, [f]⟩) := by
  induction es with
  | nil => exact .inr (.inr ⟨List.not_mem_nil, List.mem_singleton.mp he⟩)
  | cons x es ih =>
    obtain ⟨hx, hes⟩ := List.nodup_cons.mp h
    unfold recordIn at he
    split_ifs at he with hs
    · subst hs
      rcases List.mem_cons.mp he with rfl | he
      · exact .inr (.inl ⟨x, List.mem_cons_self .., rfl, rfl⟩)
      · exact .inl ⟨List.mem_cons_of_mem _ he, fun heq => hx (List.mem_map.mpr ⟨e, he, heq⟩)⟩
    · rcases List.mem_cons.mp he with rfl | he
      · exact .inl ⟨List.mem_cons_self .., hs⟩
      · rcases ih hes he with ⟨hm, hne⟩ | ⟨y, hy, hys, rfl⟩ | ⟨hn, rfl⟩
        · exact .inl ⟨List.mem_cons_of_mem _ hm, hne⟩
        · exact .inr (.inl ⟨y, List.mem_cons_of_mem _ hy, hys, rfl⟩)
        · exact .inr (.inr ⟨by simpa [Ne.symm hs] using hn, rfl⟩)

/-- The failures in the entries of one instance, entry after entry. -/
def failuresOf (s : ℕ) (es : List Entry) : List Failure :=
  ((listed es).filter (·.1 = s)).map (·.2)

@[simp] theorem failuresOf_append (s : ℕ) (a b : List Entry) :
    failuresOf s (a ++ b) = failuresOf s a ++ failuresOf s b := by
  rw [failuresOf, listed_append, List.filter_append, List.map_append, failuresOf, failuresOf]

/-! ### Sessions -/

/-- A failure that is recorded for an instance, with the label that the instance has then. -/
structure Record where
  serial : ℕ
  label : String
  failure : Failure
  deriving DecidableEq, Repr

/-- What may be done with diagnostics. -/
inductive Act where
  | record (r : Record)
  | dump
  deriving DecidableEq, Repr

/-- Diagnostics, with the entries that each dump handed out. -/
structure Session where
  diagnostics : Diagnostics
  dumped : List (List Entry)
  deriving DecidableEq, Repr

def Session.act (s : Session) : Act → Session
  | .record r => { s with diagnostics := s.diagnostics.record r.serial r.label r.failure }
  | .dump => ⟨s.diagnostics.dump.2, s.dumped ++ [s.diagnostics.dump.1]⟩

/-- From no entries on. -/
def Session.run (acts : List Act) : Session := acts.foldl Session.act ⟨empty, []⟩

/-- What was recorded: for each dump, what it had to hand out, and what came after the last. -/
structure Spans where
  dumped : List (List Record)
  since : List Record

/-- A dump ends a span, and one begins in which nothing is recorded yet. -/
def Spans.act (t : Spans) : Act → Spans
  | .record r => { t with since := t.since ++ [r] }
  | .dump => ⟨t.dumped ++ [t.since], []⟩

def Spans.run (acts : List Act) : Spans := acts.foldl Spans.act ⟨[], []⟩

theorem Session.run_concat (acts : List Act) (a : Act) :
    Session.run (acts ++ [a]) = (Session.run acts).act a := by
  rw [Session.run, List.foldl_append]
  rfl

theorem Spans.run_concat (acts : List Act) (a : Act) :
    Spans.run (acts ++ [a]) = (Spans.run acts).act a := by
  rw [Spans.run, List.foldl_append]
  rfl

def Act.record? : Act → Option Record
  | .record r => some r
  | .dump => none

/-- All that is recorded, in order. -/
def records (acts : List Act) : List Record := acts.filterMap Act.record?

/-- What is recorded for one instance, in order. -/
def recordsOf (s : ℕ) (rs : List Record) : List Record := rs.filter (·.serial = s)

theorem recordsOf_append (s : ℕ) (a b : List Record) :
    recordsOf s (a ++ b) = recordsOf s a ++ recordsOf s b := List.filter_append ..

theorem recordsOf_concat_self (rs : List Record) (r : Record) :
    recordsOf r.serial (rs ++ [r]) = recordsOf r.serial rs ++ [r] := by
  simp [recordsOf]

theorem recordsOf_concat_other (rs : List Record) {r : Record} (h : s ≠ r.serial) :
    recordsOf s (rs ++ [r]) = recordsOf s rs := by
  simp [recordsOf, Ne.symm h]

theorem recordsOf_eq_nil {rs : List Record} (h : s ∉ rs.map (·.serial)) : recordsOf s rs = [] := by
  refine List.filter_eq_nil_iff.mpr fun r hr hs => h ?_
  exact of_decide_eq_true hs ▸ List.mem_map_of_mem hr

/-- The spans are all that was recorded, in order. -/
theorem Spans.run_flatten (acts : List Act) :
    (Spans.run acts).dumped.flatten ++ (Spans.run acts).since = records acts := by
  induction acts using List.reverseRecOn with
  | nil => rfl
  | append_singleton acts a ih =>
    rw [records, List.filterMap_append, ← records, ← ih, Spans.run_concat]
    cases a <;> simp [Spans.act, Act.record?]

/-! ### What entries gather -/

/-- The entries gather what was recorded. -/
structure Gathers (rs : List Record) (es : List Entry) : Prop where
  /-- There is one entry at most for an instance. -/
  single : (es.map (·.serial)).Nodup
  /-- There is one if something was recorded for it. -/
  present : ∀ s, s ∈ es.map (·.serial) ↔ s ∈ rs.map (·.serial)
  /-- They are in the order in which something was first recorded for their instances. -/
  ordered : (es.map (·.serial)).Pairwise fun s t =>
    (rs.map (·.serial)).idxOf s < (rs.map (·.serial)).idxOf t
  /-- An entry holds all that was recorded for its instance, in order. -/
  failures : ∀ e ∈ es, e.failures = (recordsOf e.serial rs).map (·.failure)
  nonempty : ∀ e ∈ es, e.failures ≠ []
  /-- The label is that of the latest. -/
  label : ∀ e ∈ es, ((recordsOf e.serial rs).map (·.label)).getLast? = some e.label

namespace Gathers

variable {rs : List Record}

theorem nil : Gathers [] [] where
  single := List.nodup_nil
  present := by simp
  ordered := .nil
  failures := by simp
  nonempty := by simp
  label := by simp

/-- The order in which instances were first recorded stays, and those that are new come last. -/
theorem ordered_record (h : Gathers rs es) (r : Record) :
    ((recordIn r.serial r.label r.failure es).map (·.serial)).Pairwise fun s t =>
      ((rs ++ [r]).map (·.serial)).idxOf s < ((rs ++ [r]).map (·.serial)).idxOf t := by
  have hold : ∀ s ∈ es.map (·.serial),
      ((rs ++ [r]).map (·.serial)).idxOf s = (rs.map (·.serial)).idxOf s := fun s hs => by
    rw [List.map_append, List.idxOf_append_of_mem ((h.present s).mp hs)]
  have hkept : (es.map (·.serial)).Pairwise fun s t =>
      ((rs ++ [r]).map (·.serial)).idxOf s < ((rs ++ [r]).map (·.serial)).idxOf t :=
    h.ordered.imp_of_mem fun ha hb hab => by rwa [hold _ ha, hold _ hb]
  rw [serials_recordIn]
  split_ifs with hr
  · exact hkept
  · refine List.pairwise_append.mpr ⟨hkept, List.pairwise_singleton .., fun s hs t ht => ?_⟩
    obtain rfl := List.mem_singleton.mp ht
    have hnew : r.serial ∉ rs.map (·.serial) := fun hm => hr ((h.present _).mpr hm)
    have hlt := List.idxOf_lt_length_iff.mpr ((h.present s).mp hs)
    rw [hold s hs, List.map_append, List.idxOf_append_of_notMem hnew]
    omega

/-- Only the entry of the instance changes, and it holds all that was recorded for it now. -/
theorem of_mem_record (h : Gathers rs es) {r : Record} {e : Entry}
    (he : e ∈ recordIn r.serial r.label r.failure es) : (e ∈ es ∧ e.serial ≠ r.serial) ∨
      e = ⟨r.serial, r.label, (recordsOf r.serial (rs ++ [r])).map (·.failure)⟩ := by
  rw [recordsOf_concat_self, List.map_append]
  rcases of_mem_recordIn h.single he with hold | ⟨x, hx, hs, rfl⟩ | ⟨hn, rfl⟩
  · exact .inl hold
  · right
    rw [h.failures x hx, hs]
    rfl
  · right
    rw [recordsOf_eq_nil (mt (h.present _).mpr hn)]
    rfl

/-- One more failure is recorded. -/
theorem record (h : Gathers rs es) (r : Record) :
    Gathers (rs ++ [r]) (recordIn r.serial r.label r.failure es) where
  single := nodup_recordIn h.single ..
  present s := by
    rw [serials_recordIn, List.map_append, List.map_singleton, List.mem_append, List.mem_singleton,
      ← h.present s]
    split_ifs with hr
    · exact (or_iff_left_of_imp fun hs => hs ▸ hr).symm
    · rw [List.mem_append, List.mem_singleton]
  ordered := h.ordered_record r
  failures e he := by
    rcases h.of_mem_record he with ⟨hm, hne⟩ | rfl
    · rw [h.failures e hm, recordsOf_concat_other rs hne]
    · rfl
  nonempty e he := by
    rcases h.of_mem_record he with ⟨hm, -⟩ | rfl
    · exact h.nonempty e hm
    · simp [recordsOf_concat_self]
  label e he := by
    rcases h.of_mem_record he with ⟨hm, hne⟩ | rfl
    · rw [recordsOf_concat_other rs hne, h.label e hm]
    · simp [recordsOf_concat_self]

theorem failuresOf_eq (h : Gathers rs es) (s : ℕ) :
    failuresOf s es = (recordsOf s rs).map (·.failure) := by
  unfold failuresOf
  by_cases hs : s ∈ es.map (·.serial)
  · obtain ⟨e, he, rfl⟩ := List.mem_map.mp hs
    rw [listed_filter_of_mem h.single he, ← h.failures e he, List.map_map]
    exact List.map_id _
  · rw [listed_filter_of_notMem hs, recordsOf_eq_nil (mt (h.present s).mpr hs)]
    rfl

/-- There are as many entries as instances for which something was recorded. -/
theorem length (h : Gathers rs es) : es.length = (rs.map (·.serial)).toFinset.card := by
  have hsame : (es.map (·.serial)).toFinset = (rs.map (·.serial)).toFinset := by
    ext s
    rw [List.mem_toFinset, List.mem_toFinset, h.present s]
  rw [← hsame, List.toFinset_card_of_nodup h.single, List.length_map]

end Gathers

/-! ### All acts -/

/-- Span by span, the entries handed out and those retained gather what was recorded. -/
structure Session.Agrees (s : Session) (t : Spans) : Prop where
  /-- Each dump hands out what was recorded since the one before. -/
  dumped : List.Forall₂ Gathers t.dumped s.dumped
  /-- What was recorded since the last is retained. -/
  retained : Gathers t.since s.diagnostics.entries

theorem Session.Agrees.act {s : Session} {t : Spans} (h : s.Agrees t) (a : Act) :
    (s.act a).Agrees (t.act a) := by
  cases a with
  | record r => exact ⟨h.dumped, h.retained.record r⟩
  | dump => exact ⟨List.rel_append h.dumped (.cons h.retained .nil), .nil⟩

theorem Session.agrees_run (acts : List Act) : (Session.run acts).Agrees (Spans.run acts) := by
  induction acts using List.reverseRecOn with
  | nil => exact ⟨.nil, .nil⟩
  | append_singleton acts a ih =>
    rw [Session.run_concat, Spans.run_concat]
    exact ih.act a

theorem failuresOf_flatten {rss : List (List Record)} {ess : List (List Entry)}
    (h : List.Forall₂ Gathers rss ess) (s : ℕ) :
    failuresOf s ess.flatten = (recordsOf s rss.flatten).map (·.failure) := by
  induction h with
  | nil => rfl
  | cons hg _ ih =>
    rw [List.flatten_cons, List.flatten_cons, failuresOf_append, recordsOf_append, List.map_append,
      hg.failuresOf_eq, ih]

/-- What a session hands out and retains, of what was recorded. -/
structure Session.Keeps (s : Session) (acts : List Act) : Prop extends
    s.Agrees (Spans.run acts) where
  /-- For each instance, its entries hold what was recorded for it, over all dumps and what is
  retained, in order. -/
  complete : ∀ serial, failuresOf serial (s.dumped.flatten ++ s.diagnostics.entries) =
    (recordsOf serial (records acts)).map (·.failure)
  /-- No record is outside the spans, and they are in order. -/
  spans : (Spans.run acts).dumped.flatten ++ (Spans.run acts).since = records acts
  size : s.diagnostics.size = ((Spans.run acts).since.map (·.serial)).toFinset.card
  isEmpty : s.diagnostics.isEmpty = true ↔ s.diagnostics.size = 0

/-- **Diagnostics lose nothing and keep the order**, whatever is recorded and whenever it is dumped. -/
theorem kept_in_order (acts : List Act) : (Session.run acts).Keeps acts := by
  have h := Session.agrees_run acts
  have hspans := Spans.run_flatten acts
  refine
    { toAgrees := h
      complete := fun serial => ?_
      spans := hspans
      size := h.retained.length
      isEmpty := ?_ }
  · rw [failuresOf_append, failuresOf_flatten h.dumped, h.retained.failuresOf_eq, ← List.map_append,
      ← recordsOf_append, hspans]
  · rw [isEmpty, size, List.isEmpty_iff, List.length_eq_zero_iff]

/-- The first of two instances becomes known by another label before the dump. -/
example :
    Session.run [.record ⟨7, "a", .simple "error" "x" ⟨1⟩⟩, .record ⟨3, "b", .simple "error" "y" ⟨1⟩⟩,
      .record ⟨7, "c", .simple "panic" "z" ⟨1⟩⟩, .dump, .record ⟨3, "b", .simple "panic" "z" ⟨1⟩⟩] =
    ⟨⟨[⟨3, "b", [.simple "panic" "z" ⟨1⟩]⟩]⟩,
      [[⟨7, "c", [.simple "error" "x" ⟨1⟩, .simple "panic" "z" ⟨1⟩]⟩,
        ⟨3, "b", [.simple "error" "y" ⟨1⟩]⟩]]⟩ := rfl

end Diagnostics

end Quiescence
