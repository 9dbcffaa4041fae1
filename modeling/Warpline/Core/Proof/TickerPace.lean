import Warpline.Core.Ticker

/-!
# The pace of the epoch ticker

`Paced tick t0 next epochs`: increments at the times `epochs`, newest first, that a schedule
explains which starts at `t0` and stands at `next`. Each increment is due (`next ≤ e`), the schedule
moves by a tick at least, and lags no more than ten ticks behind any earlier increment; from these
follow both bounds (`Paced.due`, `Paced.count`). `sat_thread` is the loop.
-/

set_option autoImplicit false

namespace Warpline

open Conc

namespace EpochTicker

/-- Increments of the epoch, newest first, with the time of the next. -/
inductive Paced (tick t0 : Nat) : Nat → List Nat → Prop
  | start : Paced tick t0 t0 []
  | increment {next next' e : Nat} {epochs : List Nat} : Paced tick t0 next epochs →
      next + tick ≤ next' → next' ≤ e → (∀ e' ∈ epochs, e' ≤ next' + 10 * tick) →
      Paced tick t0 next' (e :: epochs)

namespace Paced

variable {tick t0 next x y : Nat} {epochs : List Nat}

theorem next_ge (h : Paced tick t0 next epochs) : t0 + epochs.length * tick ≤ next := by
  induction h with
  | start => simp
  | increment _ hnext _ _ ih =>
    rw [List.length_cons, Nat.succ_mul]
    omega

/-- The increments are due, each by its number. -/
theorem due (h : Paced tick t0 next epochs) {k e : Nat} (he : epochs.reverse[k]? = some e) :
    t0 + (k + 1) * tick ≤ e := by
  induction h with
  | start => simp at he
  | @increment next next' e' epochs h hnext hdue _ ih =>
    rw [List.reverse_cons] at he
    by_cases hk : k < epochs.reverse.length
    · rw [List.getElem?_append_left hk] at he
      exact ih he
    · rw [List.getElem?_append_right (by omega), List.getElem?_singleton] at he
      split at he
      · rename_i hzero
        obtain rfl := Option.some.inj he
        have hstart := h.next_ge
        have hlen : k = epochs.length := by
          simp only [List.length_reverse] at hzero hk
          omega
        rw [hlen, Nat.succ_mul]
        omega
      · cases he

/-- The increments from `x` on, if there are two, have moved the schedule past `x`. -/
theorem since (h : Paced tick t0 next epochs) (htwo : 2 ≤ epochs.countP fun e => x ≤ e) :
    x + (epochs.countP fun e => x ≤ e) * tick ≤ next + 12 * tick := by
  induction h with
  | start => simp at htwo
  | @increment next next' e epochs h hnext _ hlag ih =>
    rw [List.countP_cons] at htwo ⊢
    by_cases hmore : 2 ≤ epochs.countP fun e => x ≤ e
    · have hih := ih hmore
      split
      · rw [Nat.succ_mul]
        omega
      · rw [Nat.add_zero]
        omega
    · -- the newest increment and one earlier, which the schedule does not lag far behind
      split at htwo
      · have hone : (epochs.countP fun e => x ≤ e) = 1 := by omega
        obtain ⟨e', he', hx⟩ := List.countP_pos_iff.1 (Nat.lt_of_lt_of_eq Nat.one_pos hone.symm)
        have hold := hlag e' he'
        have hxe : x ≤ e' := by simpa using hx
        rename_i hnew
        simp only [hone, hnew, if_true]
        omega
      · omega

/-- An interval holds a tick's increment for each tick that fits, and twelve more. -/
theorem count (htick : 0 < tick) (h : Paced tick t0 next epochs) (hxy : x ≤ y) :
    (epochs.countP fun e => x ≤ e ∧ e ≤ y) ≤ (y - x) / tick + 12 := by
  induction h with
  | start => simp
  | @increment next next' e epochs h hnext hdue hlag ih =>
    by_cases hy : e ≤ y
    · have hall : (e :: epochs).countP (fun e => x ≤ e ∧ e ≤ y) ≤
          (e :: epochs).countP fun e => x ≤ e := by
        apply List.countP_mono_left
        intro e' _ he'
        simp only [decide_eq_true_eq] at he' ⊢
        exact he'.1
      by_cases htwo : 2 ≤ (e :: epochs).countP fun e => x ≤ e
      · have hsince := (h.increment hnext hdue hlag).since htwo
        have hdiv : ((e :: epochs).countP fun e => x ≤ e) - 12 ≤ (y - x) / tick := by
          rw [Nat.le_div_iff_mul_le htick, Nat.sub_mul]
          omega
        exact Nat.le_trans hall (by omega)
      · have hfew : ((e :: epochs).countP fun e => x ≤ e) ≤ 12 := by omega
        exact Nat.le_trans hall (Nat.le_trans hfew (Nat.le_add_left 12 _))
    · rw [List.countP_cons_of_neg (by simp [hy])]
      exact ih

end Paced

/-! ## The loop -/

/-- The thread has read the clock first at `t0`, and no increment is in the future. -/
structure Begun (t0 : Nat) (s : Clock) : Prop where
  first : s.readings.getLast? = some t0
  past : ∀ e ∈ s.epochs, e ≤ s.now

/-- The increments so far are paced, if the thread has read the clock. -/
def Pacing (tick : Nat) (s : Clock) : Prop :=
  s.epochs = [] ∨ ∃ t0 next, s.readings.getLast? = some t0 ∧ Paced tick t0 next s.epochs

/-- The ticker's own setting. -/
def tickerThread (tick : Nat) : Thread Clock TickerCall TickerRes where
  exec := Exec
  rely := fun _ s s' => ∃ t, s.now ≤ t ∧ s' = { s with now := t }
  guar := fun _ _ s' => Pacing tick s'

/-- What the passing of time keeps. -/
theorem stable_of_time {tick : Nat} {P : Clock → Prop}
    (h : ∀ s t, s.now ≤ t → P s → P { s with now := t }) (c : Option TickerCall) :
    (tickerThread tick).Stable c P := by
  intro s s' hP hrely
  obtain ⟨t, ht, rfl⟩ := hrely
  exact h s t ht hP

/-- The state at the head of the loop. -/
structure AtHead (tick t0 next : Nat) (s : Clock) : Prop where
  begun : Begun t0 s
  paced : Paced tick t0 next s.epochs

/-- The state once a round has read `now`. -/
structure Read (tick t0 next now : Nat) (s : Clock) : Prop where
  head : AtHead tick t0 next s
  clock : now ≤ s.now
  past : ∀ e ∈ s.epochs, e ≤ now

/-- The state before the increment that stands at `next'`. -/
structure Due (tick t0 next next' : Nat) (s : Clock) : Prop where
  head : AtHead tick t0 next s
  moved : next + tick ≤ next'
  due : next' ≤ s.now
  lag : ∀ e ∈ s.epochs, e ≤ next' + 10 * tick

section
variable {tick t0 next next' now t : Nat} {s : Clock}

theorem AtHead.later (h : AtHead tick t0 next s) (ht : s.now ≤ t) :
    AtHead tick t0 next { s with now := t } :=
  ⟨⟨h.begun.first, fun e he => Nat.le_trans (h.begun.past e he) ht⟩, h.paced⟩

theorem Read.later (h : Read tick t0 next now s) (ht : s.now ≤ t) :
    Read tick t0 next now { s with now := t } :=
  ⟨h.head.later ht, Nat.le_trans h.clock ht, h.past⟩

theorem Due.later (h : Due tick t0 next next' s) (ht : s.now ≤ t) :
    Due tick t0 next next' { s with now := t } :=
  ⟨h.head.later ht, h.moved, Nat.le_trans h.due ht, h.lag⟩

theorem AtHead.pacing (h : AtHead tick t0 next s) : Pacing tick s :=
  .inr ⟨t0, next, h.begun.first, h.paced⟩

/-- A reading after the first is none of the first. -/
theorem AtHead.read (h : AtHead tick t0 next s) :
    AtHead tick t0 next { s with readings := s.now :: s.readings } := by
  refine ⟨⟨?_, h.begun.past⟩, h.paced⟩
  have hfirst := h.begun.first
  cases hr : s.readings with
  | nil => simp [hr] at hfirst
  | cons r readings =>
    rw [hr] at hfirst
    simpa [List.getLast?_cons_cons] using hfirst

theorem Due.increment (h : Due tick t0 next next' s) :
    AtHead tick t0 next' { s with epochs := s.now :: s.epochs } := by
  refine ⟨⟨h.head.begun.first, fun e he => ?_⟩, h.head.paced.increment h.moved h.due h.lag⟩
  obtain rfl | he := List.mem_cons.1 he
  · exact Nat.le_refl _
  · exact h.head.begun.past e he

theorem sat_untilDue (h : Read tick t0 next now s) :
    Sat (tickerThread tick) (fun next' s => Due tick t0 next next' s)
      (untilDue tick (next + tick) now) s := by
  unfold untilDue
  split
  · rename_i hsleep
    apply Sat.call (Read tick t0 next now) (stable_of_time (fun _ _ ht h => h.later ht) _) h
    intro s _ s' h he
    obtain ⟨t, ht, rfl⟩ := he
    have hlater : s.now ≤ t := by omega
    have hclock := h.clock
    have hdue : Due tick t0 next (next + tick) { s with now := t } := by
      refine ⟨h.head.later hlater, Nat.le_refl _, ?_, fun e he => ?_⟩
      · show next + tick ≤ t
        omega
      · have hpast := h.past e he
        omega
    exact ⟨hdue.head.pacing, hdue⟩
  · rename_i hbehind
    have hclock := h.clock
    split
    · show Due tick t0 next now s
      refine ⟨h.head, by omega, hclock, fun e he => ?_⟩
      have hpast := h.past e he
      omega
    · show Due tick t0 next (next + tick) s
      refine ⟨h.head, Nat.le_refl _, by omega, fun e he => ?_⟩
      have hpast := h.past e he
      omega

/-- A round keeps the pace, and so does the loop. -/
theorem sat_loop (rounds : Nat) (h : AtHead tick t0 next s) :
    Sat (tickerThread tick) (fun _ _ => True) (loop tick rounds next) s := by
  induction rounds generalizing next s with
  | zero => trivial
  | succ rounds ih =>
    apply Sat.call (AtHead tick t0 next) (stable_of_time (fun _ _ ht h => h.later ht) _) h
    intro s stop s' hs he
    obtain rfl : s' = s := he
    refine ⟨hs.pacing, ?_⟩
    cases stop with
    | true => trivial
    | false =>
      apply Sat.call (AtHead tick t0 next) (stable_of_time (fun _ _ ht h => h.later ht) _) hs
      intro s now s' hs he
      obtain ⟨rfl, rfl⟩ := he
      refine ⟨hs.read.pacing, ?_⟩
      show Sat (tickerThread tick) _ (untilDue tick (next + tick) s.now >>= _) _
      apply Sat.bind
      have hread : Read tick t0 next s.now { s with readings := s.now :: s.readings } :=
        ⟨hs.read, Nat.le_refl _, hs.begun.past⟩
      refine (sat_untilDue hread).mono fun next' s hdue => ?_
      apply Sat.call (Due tick t0 next next') (stable_of_time (fun _ _ ht h => h.later ht) _) hdue
      intro s _ s' hdue he
      obtain rfl : s' = { s with epochs := s.now :: s.epochs } := he
      exact ⟨hdue.increment.pacing, ih hdue.increment⟩

end

theorem sat_thread (tick rounds now : Nat) :
    Sat (tickerThread tick) (fun _ _ => True) (thread tick rounds) ⟨now, [], []⟩ := by
  apply Sat.call (fun s => s.readings = [] ∧ s.epochs = [])
    (stable_of_time (fun _ _ _ h => h) _) ⟨rfl, rfl⟩
  intro s t0 s' hs he
  obtain ⟨rfl, rfl⟩ := he
  obtain ⟨hreadings, hepochs⟩ := hs
  have hhead : AtHead tick s.now s.now { s with readings := s.now :: s.readings } := by
    refine ⟨⟨?_, ?_⟩, ?_⟩
    · simp [hreadings]
    · simp [hepochs]
    · simp only [hepochs]
      exact .start
  exact ⟨hhead.pacing, sat_loop rounds hhead⟩

theorem ticker_compatible (tick : Nat) :
    Compatible system (fun _ : Unit => tickerThread tick) (Pacing tick) where
  exec _ _ _ _ _ _ _ _ he := he
  guar _ _ _ _ _ _ _ hne := absurd rfl hne
  env _ _ _ _ _ he := he
  inv _ _ _ _ _ hg := hg
  envInv := by
    intro _ s s' hJ he
    obtain ⟨t, -, rfl⟩ := he
    exact hJ

theorem pacing_run {rounds now : Nat} {C : Config Unit Clock TickerCall TickerRes fun _ => Unit}
    (hr : Reach system (start rounds now) C) : Pacing (fromMillis EPOCH_TICK_MS) C.shared :=
  (hr.sat (ticker_compatible _) (fun _ _ _ _ _ _ => trivial) (.inl rfl)
    fun _ => sat_thread _ rounds now).1

end EpochTicker

open EpochTicker in
/-- In every state the ticker reaches, however long its thread is suspended between any two of its
statements: the increment with number `k` has come no earlier than `k` ticks after the first reading
of the clock, and every interval has seen at most twelve increments more than ticks that fit. -/
theorem ticker_pace {rounds now : Nat} {C : Config Unit Clock TickerCall TickerRes fun _ => Unit}
    (hr : Reach system (start rounds now) C) :
    (∀ k e, C.shared.epochs.reverse[k]? = some e → ∃ t0,
        C.shared.readings.getLast? = some t0 ∧ t0 + (k + 1) * fromMillis EPOCH_TICK_MS ≤ e) ∧
      ∀ x y, x ≤ y →
        (C.shared.epochs.countP fun e => x ≤ e ∧ e ≤ y) ≤
          (y - x) / fromMillis EPOCH_TICK_MS + 12 := by
  have htick : 0 < fromMillis EPOCH_TICK_MS := by decide
  obtain hnone | ⟨t0, next, hfirst, hpaced⟩ := pacing_run hr
  · rw [hnone]
    exact ⟨fun k e he => by simp at he, fun x y _ => by simp⟩
  · exact ⟨fun k e he => ⟨t0, hfirst, hpaced.due he⟩, fun x y hxy => hpaced.count htick hxy⟩

/-! A first round in time, a suspension of three milliseconds, and two increments to catch up. -/

open EpochTicker in
def stalledRun : List ((Unit × Nat) ⊕ Nat) :=
  List.replicate 5 (.inl ((), 0)) ++ .inr 3000000 :: List.replicate 6 (.inl ((), 0))

open EpochTicker in
theorem ticker_pace_stalled :
    ∃ C : Config Unit Clock TickerCall TickerRes fun _ => Unit,
      C.shared.epochs = [4000000, 4000000, 1000000] ∧
        (∃ t0, C.shared.readings.getLast? = some t0 ∧
          t0 + (2 + 1) * fromMillis EPOCH_TICK_MS ≤ 4000000) ∧
        (C.shared.epochs.countP fun e => 4000000 ≤ e ∧ e ≤ 4000000) ≤
          (4000000 - 4000000) / fromMillis EPOCH_TICK_MS + 12 := by
  have hplayed : ((start 3 0).playEnv (fun late _ _ s c => some (execute late s c))
      (fun d _ s => some { s with now := s.now + d }) stalledRun).any
        (fun C => C.shared.epochs = [4000000, 4000000, 1000000]) = true := by
    decide +kernel
  rw [Option.any_eq_true] at hplayed
  obtain ⟨C, hplay, hepochs⟩ := hplayed
  rw [decide_eq_true_eq] at hepochs
  have hr : Reach system (start 3 0) C := by
    refine playEnv_reach (fun late _ _ s c r s' h => ?_) (fun d _ s s' h => ?_) hplay
    · have hexec := execute_exec late s c
      rw [Option.some.inj h] at hexec
      exact hexec
    · cases h
      exact ⟨_, Nat.le_add_right _ d, rfl⟩
  obtain ⟨hdue, hcount⟩ := ticker_pace hr
  exact ⟨C, hepochs, hdue 2 4000000 (by rw [hepochs]; rfl), hcount _ _ (Nat.le_refl _)⟩

end Warpline
