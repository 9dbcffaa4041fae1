import Warpline.Pg.Meter

/-!
# Every `record` call is accounted for once

`Ledger`: what the meter is for. A call is held (in the writer's batch or the queue, oldest
first), stored, or lost, and moves from held to one of the others once. A step of the meter whose
insert reports what it did is a move of the ledger or leaves it (`ledger_step`), and every move
keeps `Ledger.Exact`: each call is in one of the three places, in one copy.

An insert that stores its rows and is seen as failed is no move. Its batch is stored and still to
be written, so the rows come to be stored twice or both stored and lost (`Spoiled`).
-/

set_option autoImplicit false

namespace Warpline

open Conc

/-! ## The ledger -/

structure Ledger where
  calls : List Row
  stored : List (Nat × MeterRow)
  lost : List Nat
  held : List (Nat × Row)

namespace Ledger

/-- What a step does to the ledger. -/
inductive Move (l : Ledger) : Ledger → Prop
  | sent (row : Row) : Move l { l with
      calls := l.calls ++ [row], held := l.held ++ [(l.calls.length, row)] }
  | refused (row : Row) : Move l { l with
      calls := l.calls ++ [row], lost := l.lost ++ [l.calls.length] }
  | stored {batch rest : List (Nat × Row)} (h : l.held = batch ++ rest) : Move l { l with
      stored := l.stored ++ batch.map fun q => (q.1, q.2.bind), held := rest }
  | lost {batch rest : List (Nat × Row)} (h : l.held = batch ++ rest) : Move l { l with
      lost := l.lost ++ batch.map Prod.fst, held := rest }

/-- The calls that are stored or held, in order. -/
def kept (l : Ledger) : List Nat := l.stored.map Prod.fst ++ l.held.map Prod.fst

/-- Each call is stored, held or lost, in one copy; what is stored or held is in the order of the
calls and is what they recorded. -/
structure Exact (l : Ledger) : Prop where
  parts : (l.kept ++ l.lost).Perm (List.range l.calls.length)
  sorted : l.kept.Pairwise (· < ·)
  storedRow : ∀ q ∈ l.stored, ∃ row, l.calls[q.1]? = some row ∧ q.2 = row.bind
  heldRow : ∀ q ∈ l.held, l.calls[q.1]? = some q.2

theorem Exact.lt_calls {l : Ledger} (h : l.Exact) {n : Nat} (hn : n ∈ l.kept) :
    n < l.calls.length :=
  List.mem_range.1 (h.parts.subset (List.mem_append_left _ hn))

theorem Exact.move {l l' : Ledger} (h : l.Exact) (hm : Move l l') : l'.Exact := by
  cases hm with
  | sent row =>
    refine ⟨?_, ?_, fun q hq => ?_, fun q hq => ?_⟩
    · have hp : (l.kept ++ [l.calls.length] ++ l.lost).Perm
          (l.kept ++ l.lost ++ [l.calls.length]) := by
        rw [List.append_assoc, List.append_assoc]
        exact List.perm_append_comm.append_left _
      simpa [kept, List.range_succ] using hp.trans (h.parts.append_right _)
    · have := List.pairwise_append.2 ⟨h.sorted, List.pairwise_singleton (· < ·) l.calls.length,
        fun n hn k hk => by simp only [List.mem_singleton] at hk; exact hk ▸ h.lt_calls hn⟩
      simpa [kept] using this
    · obtain ⟨r, hr, hb⟩ := h.storedRow q hq
      exact ⟨r, by rw [List.getElem?_append_left (List.getElem?_eq_some_iff.1 hr).1]; exact hr, hb⟩
    · simp only [List.mem_append, List.mem_singleton] at hq
      obtain hq | rfl := hq
      · have hr := h.heldRow q hq
        rw [List.getElem?_append_left (List.getElem?_eq_some_iff.1 hr).1]
        exact hr
      · simp
  | refused row =>
    refine ⟨?_, h.sorted, fun q hq => ?_, fun q hq => ?_⟩
    · simpa [kept, List.range_succ] using h.parts.append_right [l.calls.length]
    · obtain ⟨r, hr, hb⟩ := h.storedRow q hq
      exact ⟨r, by rw [List.getElem?_append_left (List.getElem?_eq_some_iff.1 hr).1]; exact hr, hb⟩
    · have hr := h.heldRow q hq
      rw [List.getElem?_append_left (List.getElem?_eq_some_iff.1 hr).1]
      exact hr
  | @stored batch rest hh =>
    have hk : l.kept = l.stored.map Prod.fst ++ batch.map Prod.fst ++ rest.map Prod.fst := by
      simp [kept, hh]
    refine ⟨?_, ?_, fun q hq => ?_, fun q hq => ?_⟩
    · have := h.parts
      rw [hk] at this
      simpa [kept, Function.comp_def] using this
    · have := h.sorted
      rw [hk] at this
      simpa [kept, Function.comp_def] using this
    · simp only [List.mem_append, List.mem_map] at hq
      obtain hq | ⟨p, hp, rfl⟩ := hq
      · exact h.storedRow q hq
      · exact ⟨p.2, h.heldRow p (by rw [hh]; exact List.mem_append_left _ hp), rfl⟩
    · exact h.heldRow q (by rw [hh]; exact List.mem_append_right _ hq)
  | @lost batch rest hh =>
    have hk : l.kept = l.stored.map Prod.fst ++ batch.map Prod.fst ++ rest.map Prod.fst := by
      simp [kept, hh]
    refine ⟨?_, ?_, h.storedRow, fun q hq => ?_⟩
    · have hp : (l.stored.map Prod.fst ++ rest.map Prod.fst ++ (l.lost ++ batch.map Prod.fst)).Perm
          (l.kept ++ l.lost) := by
        rw [hk]
        refine List.perm_iff_count.2 fun n => ?_
        simp only [List.count_append]
        omega
      exact hp.trans h.parts
    · refine h.sorted.sublist ?_
      rw [hk, List.append_assoc]
      exact (List.sublist_append_right _ _).append_left _
    · exact h.heldRow q (by rw [hh]; exact List.mem_append_right _ hq)

end Ledger

namespace PgMeter

/-! ## What a step does -/

/-- What a step can do, other than an insert that reports a failure after storing its rows. -/
inductive Move (m : PgMeter) : PgMeter → Prop
  | sent (row : Row) (ho : m.chan.closed = false) (hr : m.chan.queue.length < m.chan.capacity) :
      Move m { m with
        chan := { m.chan with queue := m.chan.queue ++ [(m.calls.length, row)] }
        calls := m.calls ++ [row] }
  | refused (row : Row) : Move m { m with
      dropped := m.dropped + 1, calls := m.calls ++ [row], lost := m.lost ++ [m.calls.length] }
  | told (stop : Bool) (chan : Mpsc (Nat × Row)) (stopping : Bool) (hq : chan.queue = m.chan.queue)
      (hc : chan.capacity = m.chan.capacity) (ho : m.chan.closed = true → chan.closed = true) :
      Move m { m with stop := stop, chan := chan, stopping := stopping }
  | taken (row : Nat × Row) (queue batch : List (Nat × Row)) (hq : m.chan.queue = row :: queue)
      (hb : m.writer = .select ∧ batch = [] ∨ m.writer = .filling batch ∧ batch.length < BATCH_MAX) :
      Move m { m with
        chan := { m.chan with queue := queue }, writer := .filling (batch ++ [row]) }
  | filled {batch : List (Nat × Row)} (hw : m.writer = .filling batch) :
      Move m { m with writer := .writing batch 0 }
  | ended (hw : m.writer = .select) (hq : m.chan.queue = []) :
      Move m { m with chan := m.chan.close, writer := .ended }
  | stored {batch : List (Nat × Row)} {attempt : Nat} (hw : m.writer = .writing batch attempt) :
      Move m { m.insert batch with writer := .select }
  | again {batch : List (Nat × Row)} {attempt : Nat} (hw : m.writer = .writing batch attempt) :
      Move m { m with writer := .writing batch (attempt + 1) }
  | gaveUp {batch : List (Nat × Row)} {attempt : Nat} (hw : m.writer = .writing batch attempt) :
      Move m { m with
        dropped := m.dropped + batch.length
        lost := m.lost ++ batch.map Prod.fst
        writer := .select }

variable {m m' : PgMeter} {e : MeterEvent}

theorem move_record (m : PgMeter) (row : Row) : Move m (m.record row) := by
  unfold record
  split
  · rename_i c hc
    obtain ⟨ho, hr, rfl⟩ := Mpsc.trySend_eq_some.1 hc
    exact .sent row ho hr
  · exact .refused row

theorem move_first {o : Option ((Nat × Row) × Mpsc (Nat × Row))} (h : m.chan.tryRecv = o)
    (hw : m.writer = .select) : Move m (m.first o) := by
  cases o with
  | none => exact .ended hw (Mpsc.tryRecv_eq_none.1 h)
  | some q =>
    obtain ⟨hq, hc⟩ := Mpsc.tryRecv_eq_some.1 h
    have := Move.taken q.1 q.2.queue [] hq (.inl ⟨hw, rfl⟩)
    rw [← hc] at this
    exact this

theorem move_fill {batch : List (Nat × Row)} (hw : m.writer = .filling batch) :
    Move m (m.fill batch) := by
  unfold fill
  split
  · rename_i hlt
    split
    · rename_i row c hc
      obtain ⟨hq, hc⟩ := Mpsc.tryRecv_eq_some.1 hc
      have := Move.taken row c.queue batch hq (.inr ⟨hw, hlt⟩)
      rw [← hc] at this
      exact this
    · exact .filled hw
  · exact .filled hw

theorem move_retry {batch : List (Nat × Row)} {attempt : Nat}
    (hw : m.writer = .writing batch attempt) : Move m (m.retry batch attempt) := by
  unfold retry
  split
  · exact .again hw
  · exact .gaveUp hw

theorem step_cases (h : m.step e = some m') : Move m m' ∨
    ∃ batch attempt, e = .insert .unseen ∧ m.writer = .writing batch attempt ∧
      m' = (m.insert batch).retry batch attempt := by
  cases e with
  | record row =>
    simp only [step, Option.ite_none_right_eq_some, Option.some.injEq] at h
    exact .inl (h.2 ▸ move_record m row)
  | shutdown =>
    cases h
    exact .inl (.told true m.chan m.stopping rfl rfl id)
  | release =>
    cases h
    exact .inl (.told m.stop _ m.stopping rfl rfl id)
  | recv =>
    simp only [step, Option.ite_none_right_eq_some] at h
    obtain ⟨⟨hw, -⟩, h⟩ := h
    left
    split at h
    · rename_i q hq
      exact Option.some.inj h ▸ move_first hq hw
    · rename_i hq
      simp only [Option.ite_none_right_eq_some, Option.some.injEq] at h
      exact h.2 ▸ move_first hq hw
  | notified =>
    simp only [step, Option.ite_none_right_eq_some, Option.some.injEq] at h
    exact .inl (h.2 ▸ .told false m.chan.close true rfl rfl fun _ => rfl)
  | tryRecv =>
    simp only [step] at h
    left
    split at h
    · rename_i hw
      simp only [Option.ite_none_right_eq_some, Option.some.injEq] at h
      exact h.2 ▸ move_first rfl hw
    · rename_i batch hw
      exact Option.some.inj h ▸ move_fill hw
    · cases h
  | insert o =>
    simp only [step] at h
    split at h
    · rename_i batch attempt hw
      cases o with
      | stored => exact .inl (Option.some.inj h ▸ .stored hw)
      | failed => exact .inl (Option.some.inj h ▸ move_retry hw)
      | unseen => exact .inr ⟨batch, attempt, rfl, hw, (Option.some.inj h).symm⟩
    · cases h

theorem move_of_seen (h : m.step e = some m') (hs : Seen e m) : Move m m' := by
  obtain hm | ⟨-, -, he, -⟩ := step_cases h
  · exact hm
  · exact absurd he hs

/-! ## The meter keeps the ledger -/

def ledger (m : PgMeter) : Ledger where
  calls := m.calls
  stored := m.stored
  lost := m.lost
  held := m.writer.batch ++ m.chan.queue

theorem stored_insert (m : PgMeter) (batch : List (Nat × Row)) :
    (m.insert batch).stored = m.stored ++ batch.map fun q => (q.1, q.2.bind) := by
  simp [stored, insert]

/-- A step whose insert, if it is one, reports what it did is a move of the ledger. -/
theorem ledger_move (hm : Move m m') :
    m'.ledger = m.ledger ∨ Ledger.Move m.ledger m'.ledger := by
  cases hm with
  | sent row ho hr =>
    have := Ledger.Move.sent (l := m.ledger) row
    simp only [ledger, List.append_assoc] at this
    exact .inr this
  | refused row => exact .inr (.refused row)
  | told stop chan stopping hq hc ho => exact .inl (by simp [ledger, stored, hq])
  | taken row queue batch hq hb =>
    left
    obtain ⟨hw, rfl⟩ | ⟨hw, -⟩ := hb
    · simp [ledger, stored, hw, hq, Writer.batch]
    · simp [ledger, stored, hw, hq, Writer.batch]
  | filled hw => exact .inl (by simp [ledger, stored, hw, Writer.batch])
  | ended hw hq => exact .inl (by simp [ledger, stored, hw, Writer.batch])
  | @stored batch attempt hw =>
    have hh : m.ledger.held = batch ++ m.chan.queue := by simp [ledger, hw, Writer.batch]
    have := Ledger.Move.stored hh
    simp only [ledger, ← stored_insert] at this
    exact .inr this
  | again hw => exact .inl (by simp [ledger, stored, hw, Writer.batch])
  | @gaveUp batch attempt hw =>
    have hh : m.ledger.held = batch ++ m.chan.queue := by simp [ledger, hw, Writer.batch]
    exact .inr (.lost hh)

/-! ## The writer and the channel -/

/-- The number of rows of one insert. -/
def Sized (n : Nat) : Prop := 1 ≤ n ∧ n ≤ BATCH_MAX

/-- What every step keeps, whatever its inserts report. -/
structure Tidy (capacity : Nat) (m : PgMeter) : Prop where
  cap : m.chan.capacity = capacity
  room : m.chan.queue.length ≤ capacity
  counted : m.dropped = m.lost.length
  filling : ∀ batch, m.writer = .filling batch → Sized batch.length
  writing : ∀ batch attempt, m.writer = .writing batch attempt → Sized batch.length
  inserts : ∀ batch ∈ m.inserts, Sized batch.length
  ended : m.writer = .ended → m.chan.queue = [] ∧ m.chan.closed = true

theorem Tidy.spawn (capacity : Nat) : Tidy capacity (spawn capacity) where
  cap := rfl
  room := Nat.zero_le _
  counted := rfl
  filling := fun _ h => by cases h
  writing := fun _ _ h => by cases h
  inserts := fun _ h => by cases h
  ended := fun h => by cases h

theorem Tidy.insert {capacity : Nat} {batch : List (Nat × Row)} {attempt : Nat}
    (h : Tidy capacity m) (hw : m.writer = .writing batch attempt) :
    Tidy capacity (m.insert batch) := by
  refine ⟨h.cap, h.room, h.counted, h.filling, h.writing, fun b hb => ?_, h.ended⟩
  simp only [PgMeter.insert, List.mem_append, List.mem_singleton] at hb
  obtain hb | rfl := hb
  · exact h.inserts b hb
  · simpa using h.writing batch attempt hw

theorem Tidy.move {capacity : Nat} (h : Tidy capacity m) (hm : Move m m') : Tidy capacity m' := by
  cases hm with
  | sent row ho hr =>
    refine ⟨h.cap, ?_, h.counted, h.filling, h.writing, h.inserts, fun hw => ?_⟩
    · have := h.cap
      simp only [List.length_append, List.length_singleton]
      omega
    · exact absurd (h.ended hw).2 (by simp [ho])
  | refused row =>
    exact ⟨h.cap, h.room, by simp [h.counted], h.filling, h.writing, h.inserts, h.ended⟩
  | told stop chan stopping hq hc ho =>
    exact ⟨hc.trans h.cap, by simp [hq, h.room], h.counted, h.filling, h.writing, h.inserts,
      fun hw => ⟨hq.trans (h.ended hw).1, ho (h.ended hw).2⟩⟩
  | taken row queue batch hq hb =>
    have hroom := h.room
    rw [hq, List.length_cons] at hroom
    refine ⟨h.cap, Nat.le_of_succ_le hroom, h.counted, fun b hw => ?_, fun b k hw => ?_,
      h.inserts, fun hw => ?_⟩
    · simp only [Writer.filling.injEq] at hw
      subst hw
      unfold Sized BATCH_MAX at *
      rw [List.length_append, List.length_singleton]
      obtain ⟨-, rfl⟩ | ⟨-, hlt⟩ := hb
      · simp
      · omega
    · cases hw
    · cases hw
  | filled hw =>
    refine ⟨h.cap, h.room, h.counted, fun b hb => ?_, fun b k hb => ?_, h.inserts,
      fun hb => ?_⟩
    · cases hb
    · cases hb
      exact h.filling _ hw
    · cases hb
  | ended hw hq =>
    exact ⟨h.cap, h.room, h.counted, fun _ hb => (by cases hb), fun _ _ hb => (by cases hb),
      h.inserts, fun _ => ⟨hq, rfl⟩⟩
  | stored hw =>
    have hi := h.insert hw
    exact ⟨hi.cap, hi.room, hi.counted, fun _ hb => (by cases hb), fun _ _ hb => (by cases hb),
      hi.inserts, fun hb => (by cases hb)⟩
  | again hw =>
    refine ⟨h.cap, h.room, h.counted, fun b hb => ?_, fun b k hb => ?_, h.inserts,
      fun hb => ?_⟩
    · cases hb
    · cases hb
      exact h.writing _ _ hw
    · cases hb
  | gaveUp hw =>
    exact ⟨h.cap, h.room, by simp [h.counted], fun _ hb => (by cases hb),
      fun _ _ hb => (by cases hb), h.inserts, fun hb => (by cases hb)⟩

theorem Tidy.step {capacity : Nat} (h : Tidy capacity m) (hs : m.step e = some m') :
    Tidy capacity m' := by
  obtain hm | ⟨batch, attempt, -, hw, rfl⟩ := step_cases hs
  · exact h.move hm
  · exact (h.insert hw).move (move_retry hw)

/-- Once the writer has ended it stays so, and every later call is counted as dropped. -/
theorem ended_step {capacity : Nat} (h : Tidy capacity m) (hw : m.writer = .ended)
    (hs : m.step e = some m') : m'.writer = .ended ∧ m'.inserts = m.inserts ∧
      ∃ n, m'.calls.length = m.calls.length + n ∧ m'.dropped = m.dropped + n := by
  obtain hm | ⟨batch, attempt, -, hw', -⟩ := step_cases hs
  · cases hm with
    | sent row ho hr => exact absurd (h.ended hw).2 (by simp [ho])
    | refused row =>
      exact ⟨hw, rfl, 1, by simp, rfl⟩
    | told => exact ⟨hw, rfl, 0, rfl, rfl⟩
    | taken row queue batch hq hb => rw [(h.ended hw).1] at hq; cases hq
    | filled hw' | ended hw' | stored hw' | again hw' | gaveUp hw' => rw [hw] at hw'; cases hw'
  · rw [hw] at hw'
    cases hw'

theorem ended_run {capacity : Nat} {A : MeterEvent → PgMeter → Prop} (h : Tidy capacity m)
    (hw : m.writer = .ended) (hr : Run step A m m') :
    Tidy capacity m' ∧ m'.writer = .ended ∧ m'.inserts = m.inserts ∧
      ∃ n, m'.calls.length = m.calls.length + n ∧ m'.dropped = m.dropped + n := by
  refine hr.keeps (P := fun m' => Tidy capacity m' ∧ m'.writer = .ended ∧ m'.inserts = m.inserts ∧
    ∃ n, m'.calls.length = m.calls.length + n ∧ m'.dropped = m.dropped + n)
    (fun s e s' _ hs he => ?_) ⟨h, hw, rfl, 0, rfl, rfl⟩
  obtain ⟨ht, hws, hi, n, hn, hd⟩ := hs
  obtain ⟨h1, h2, k, hk, hd'⟩ := ended_step ht hws he
  exact ⟨ht.step he, h1, h2.trans hi, n + k, by omega, by omega⟩

/-! ## Accounting -/

theorem exact_run {capacity : Nat} (hr : Run step Seen (spawn capacity) m) :
    Tidy capacity m ∧ m.ledger.Exact := by
  refine hr.keeps (P := fun m => Tidy capacity m ∧ m.ledger.Exact) (fun s e s' hA hs he => ?_)
    ⟨Tidy.spawn capacity, ?_⟩
  · refine ⟨hs.1.step he, ?_⟩
    obtain heq | hm := ledger_move (move_of_seen he hA)
    · exact heq ▸ hs.2
    · exact hs.2.move hm
  · exact ⟨.refl _, .nil, fun _ h => (by cases h), fun _ h => (by cases h)⟩

/-! ## Inserts that store and are seen as failed -/

/-- No call's row is stored twice, and none that `dropped` counts is stored. -/
def Once (m : PgMeter) : Prop :=
  (m.stored.map Prod.fst).Nodup ∧ ∀ n ∈ m.lost, n ∉ m.stored.map Prod.fst

instance (m : PgMeter) : Decidable m.Once := inferInstanceAs (Decidable (_ ∧ _))

theorem once_of_exact (h : m.ledger.Exact) : Once m := by
  have hn : (m.ledger.kept ++ m.ledger.lost).Nodup := h.parts.nodup_iff.2 List.nodup_range
  obtain ⟨hk, -, hd⟩ := List.nodup_append.1 hn
  refine ⟨(List.nodup_append.1 hk).1, fun n hn hs => ?_⟩
  exact hd n (List.mem_append_left _ hs) n hn rfl

theorem Once.of_prefix (h : Once m') (hs : m.stored <+: m'.stored) (hl : m.lost <+: m'.lost) :
    Once m :=
  ⟨h.1.sublist (hs.sublist.map _),
    fun n hn hm => h.2 n (hl.subset hn) ((hs.sublist.map _).subset hm)⟩

/-- What is stored or dropped stays so. -/
theorem prefix_of_move (hm : Move m m') : m.stored <+: m'.stored ∧ m.lost <+: m'.lost := by
  cases hm with
  | refused row => exact ⟨List.prefix_rfl, List.prefix_append _ _⟩
  | @stored batch attempt hw =>
    refine ⟨?_, List.prefix_rfl⟩
    show m.stored <+: (m.insert batch).stored
    rw [stored_insert]
    exact List.prefix_append _ _
  | gaveUp hw => exact ⟨List.prefix_rfl, List.prefix_append _ _⟩
  | _ => exact ⟨List.prefix_rfl, List.prefix_rfl⟩

/-- A row is stored twice or stored and dropped, or stored rows are still to be written. -/
def Spoiled (m : PgMeter) : Prop :=
  ¬ Once m ∨ ∃ batch attempt, m.writer = .writing batch attempt ∧ batch ≠ [] ∧
    ∀ q ∈ batch, q.1 ∈ m.stored.map Prod.fst

theorem spoiled_insert {capacity : Nat} {batch : List (Nat × Row)} {attempt : Nat}
    (h : Tidy capacity m) (hw : m.writer = .writing batch attempt) : Spoiled (m.insert batch) := by
  refine .inr ⟨batch, attempt, hw, fun hnil => ?_, fun q hq => ?_⟩
  · have hsize := (h.writing batch attempt hw).1
    rw [hnil] at hsize
    exact absurd hsize (by decide)
  · rw [stored_insert, List.map_append]
    exact List.mem_append_right _ (by simpa [Function.comp_def] using ⟨q.2, hq⟩)

theorem Spoiled.move (h : Spoiled m) (hm : Move m m') : Spoiled m' := by
  have hp := prefix_of_move hm
  obtain hno | ⟨batch, attempt, hw, hne, hin⟩ := h
  · exact .inl fun ho => hno (ho.of_prefix hp.1 hp.2)
  obtain ⟨q, hq⟩ := List.exists_mem_of_ne_nil batch hne
  cases hm with
  | sent | refused | told => exact .inr ⟨batch, attempt, hw, hne, hin⟩
  | again hw' =>
    rw [hw] at hw'
    cases hw'
    exact .inr ⟨batch, attempt + 1, rfl, hne, hin⟩
  | stored hw' =>
    rw [hw] at hw'
    cases hw'
    refine .inl fun ho => ?_
    have hn := ho.1
    have hs := stored_insert m batch
    have : (m.stored.map Prod.fst ++ batch.map Prod.fst).Nodup := by
      simpa [stored, PgMeter.insert, Function.comp_def] using hn
    exact (List.nodup_append.1 this).2.2 q.1 (hin q hq) q.1 (List.mem_map_of_mem hq) rfl
  | gaveUp hw' =>
    rw [hw] at hw'
    cases hw'
    exact .inl fun ho => ho.2 q.1 (List.mem_append_right _ (List.mem_map_of_mem hq)) (hin q hq)
  | taken row queue b hq hb =>
    obtain ⟨hw', -⟩ | ⟨hw', -⟩ := hb
    · rw [hw] at hw'
      cases hw'
    · rw [hw] at hw'
      cases hw'
  | filled hw' | ended hw' =>
    rw [hw] at hw'
    cases hw'

theorem Spoiled.step {capacity : Nat} (ht : Tidy capacity m) (h : Spoiled m)
    (hs : m.step e = some m') : Spoiled m' := by
  obtain hm | ⟨batch, attempt, -, hw, rfl⟩ := step_cases hs
  · exact h.move hm
  · exact (spoiled_insert ht hw).move (move_retry hw)

theorem spoiled_of_unseen {capacity : Nat} (ht : Tidy capacity m)
    (hs : m.step (.insert .unseen) = some m') : Spoiled m' := by
  simp only [PgMeter.step] at hs
  split at hs
  · rename_i batch attempt hw
    exact Option.some.inj hs ▸ (spoiled_insert ht hw).move (move_retry hw)
  · cases hs

end PgMeter

open PgMeter in
/-- As long as every insert reports what it did, each `record` call is stored, dropped, queued or
in the writer's batch; rows are stored once, in the order they were queued, in inserts of 1 to 200
rows; and after the writer has ended every call is dropped. -/
theorem meter_conserves (capacity : Nat) (m : PgMeter) (hr : Run step Seen (spawn capacity) m) :
    m.calls.length =
        m.stored.length + m.dropped + m.chan.queue.length + m.writer.batch.length ∧
      m.chan.queue.length ≤ capacity ∧
      (m.stored.map Prod.fst ++ m.writer.batch.map Prod.fst ++ m.chan.queue.map Prod.fst).Pairwise
        (· < ·) ∧
      (∀ q ∈ m.stored, ∃ row, m.calls[q.1]? = some row ∧ q.2 = row.bind) ∧
      (∀ batch ∈ m.inserts, 1 ≤ batch.length ∧ batch.length ≤ 200) ∧
      (m.writer = .ended → m.chan.queue = [] ∧ m.writer.batch = [] ∧
        ∀ m', Run step (fun _ _ => True) m m' →
          m'.writer = .ended ∧ m'.chan.queue = [] ∧ m'.stored = m.stored ∧
            m'.dropped = m.dropped + (m'.calls.length - m.calls.length)) := by
  obtain ⟨ht, hx⟩ := exact_run hr
  refine ⟨?_, ht.room, ?_, hx.storedRow, ht.inserts, fun hw => ?_⟩
  · have hp := hx.parts.length_eq
    simp only [Ledger.kept, ledger, List.map_append, List.length_append, List.length_map,
      List.length_range] at hp
    have := ht.counted
    omega
  · have := hx.sorted
    simpa only [Ledger.kept, ledger, List.map_append, List.append_assoc] using this
  · refine ⟨(ht.ended hw).1, by rw [hw]; rfl, fun m' hr' => ?_⟩
    obtain ⟨ht', h1, h2, n, hn, hd⟩ := ended_run ht hw hr'
    exact ⟨h1, (ht'.ended h1).1, by unfold stored; rw [h2], by omega⟩

def meterRow : Row := ⟨['a'], ['f'], ⟨1000, 2000, 65536⟩, true⟩

/-- Three calls over a channel for one row: the second is refused while the first is queued; the
writer is told to stop, writes its batch at the second attempt, and ends. -/
def drainRun : List MeterEvent :=
  [.record meterRow, .record meterRow, .recv, .record meterRow, .shutdown, .tryRecv, .tryRecv,
   .insert .failed, .insert .stored, .notified, .tryRecv]

open PgMeter in
theorem meter_conserves_drained : ∃ m : PgMeter, m.writer = .ended ∧ m.dropped = 1 ∧
    m.calls.length =
      m.stored.length + m.dropped + m.chan.queue.length + m.writer.batch.length := by
  obtain ⟨m, hm, hw, hd⟩ : ∃ m : PgMeter, drainRun.foldlM step (spawn 1) = some m ∧
      m.writer = .ended ∧ m.dropped = 1 := ⟨_, rfl, rfl, rfl⟩
  exact ⟨m, hw, hd, (meter_conserves 1 m (Run.of_foldlM hm (by simp [drainRun, Seen]))).1⟩

open PgMeter in
/-- As long as every insert reports what it did, no row is stored twice and none that `dropped`
counts is stored. Once an insert has stored its rows and was seen as failed, one or the other
happens by the time its batch is done with. -/
theorem meter_once_of_seen (capacity : Nat) :
    (∀ m, Run step Seen (spawn capacity) m → Once m ∧ m.dropped = m.lost.length) ∧
      ∀ m m₁ m₂, Run step (fun _ _ => True) (spawn capacity) m →
        m.step (.insert .unseen) = some m₁ → Run step (fun _ _ => True) m₁ m₂ →
        (∀ batch attempt, m₂.writer ≠ .writing batch attempt) → ¬ Once m₂ := by
  refine ⟨fun m hr => ?_, fun m m₁ m₂ hr hs hr' hw ho => ?_⟩
  · obtain ⟨ht, hx⟩ := exact_run hr
    exact ⟨once_of_exact hx, ht.counted⟩
  · have ht : Tidy capacity m := hr.keeps (fun _ _ _ _ h he => h.step he) (Tidy.spawn capacity)
    have hend : Tidy capacity m₂ ∧ Spoiled m₂ :=
      hr'.keeps (P := fun m => Tidy capacity m ∧ Spoiled m)
        (fun _ _ _ _ h he => ⟨h.1.step he, h.2.step h.1 he⟩) ⟨ht.step hs, spoiled_of_unseen ht hs⟩
    obtain hno | ⟨batch, attempt, hb, -⟩ := hend.2
    · exact hno ho
    · exact hw batch attempt hb

open PgMeter in
theorem meter_once_of_seen_drained : ∃ m : PgMeter, m.stored.length = 2 ∧ Once m := by
  obtain ⟨m, hm, hn⟩ : ∃ m : PgMeter, drainRun.foldlM step (spawn 1) = some m ∧
      m.stored.length = 2 := ⟨_, rfl, rfl⟩
  have hr : Run step Seen (spawn 1) m := Run.of_foldlM hm (by simp [drainRun, Seen])
  exact ⟨m, hn, ((meter_once_of_seen 1).1 m hr).1⟩

open PgMeter in
/-- One row: the first insert stores it after the client's timeout, the retry stores it again. -/
theorem meter_stored_twice :
    ¬ ∀ (capacity : Nat) (m : PgMeter), Run step (fun _ _ => True) (spawn capacity) m → Once m := by
  intro h
  obtain ⟨m, hm, hno⟩ : ∃ m, [.record meterRow, .recv, .tryRecv, .insert .unseen,
      .insert .stored].foldlM step (spawn 4) = some m ∧ ¬ Once m := ⟨_, rfl, by decide⟩
  exact hno (h 4 m (Run.of_foldlM hm fun _ _ _ => trivial))

end Warpline
