import Warpline.Core.Log

/-!
# The caps of the log

`emit_cases` is what one call does. Over all calls of an invocation, `emits_lines` says which
messages are forwarded, and `emits_bytes` when their bytes stay within the cap: the check precedes
the message that may cross it. `log_caps_iff` is the main result.
-/

set_option autoImplicit false

namespace Warpline

/-! ## Truncation -/

theorem floorBoundary_spec (s : Str) (n : Nat) :
    floorBoundary s n ≤ n ∧ Str.isCharBoundary s (floorBoundary s n) = true := by
  induction n with
  | zero =>
    refine ⟨Nat.le_refl 0, ?_⟩
    rw [floorBoundary, Str.isCharBoundary]
  | succ n ih =>
    rw [floorBoundary]
    split
    · rename_i h
      exact ⟨Nat.le_refl _, h⟩
    · exact ⟨Nat.le_succ_of_le ih.1, ih.2⟩

theorem truncateUtf8_isPrefix (s : Str) (maxBytes : Nat) : truncateUtf8 s maxBytes <+: s := by
  unfold truncateUtf8
  split
  · exact List.prefix_refl s
  · exact Str.sliceTo_isPrefix s _

theorem utf8Len_truncateUtf8 (s : Str) (maxBytes : Nat) :
    Str.utf8Len (truncateUtf8 s maxBytes) ≤ maxBytes := by
  unfold truncateUtf8
  split
  · assumption
  · obtain ⟨hle, hboundary⟩ := floorBoundary_spec s maxBytes
    rw [Str.utf8Len_sliceTo hboundary]
    exact hle

/-! ## What is sent -/

/-- The forwarded message of an event. -/
def LogEvent.line : LogEvent → Option Str
  | .guestLog _ _ _ msg => some msg
  | .suppressed _ _ => none

def lines (events : List LogEvent) : List Str := events.filterMap LogEvent.line

def notices (events : List LogEvent) : Nat := events.countP fun e => e.line.isNone

/-- The bytes that the messages have when they are forwarded. -/
def forwardedSizes (calls : List (Str × Str)) : List Nat :=
  calls.map fun q => Str.utf8Len (truncateUtf8 q.2 MAX_LOG_MSG_BYTES)

/-- The documented caps, for what a guest's calls return and send. -/
structure LogCapped {ε : Type} (calls : List (Str × Str)) (results : List (Except ε Unit))
    (events : List LogEvent) : Prop where
  count : (lines events).length ≤ MAX_LOG_LINES_PER_INVOCATION
  line : ∀ msg ∈ lines events, Str.utf8Len msg ≤ MAX_LOG_MSG_BYTES
  prefixes : List.Forall₂ (fun msg q => msg <+: q.2) (lines events)
    (calls.take (lines events).length)
  bytes : ((lines events).map Str.utf8Len).sum ≤ MAX_LOG_BYTES_PER_INVOCATION
  notice : notices events ≤ 1
  results : ∀ r ∈ results, r = .ok ()

theorem lines_append (events events' : List LogEvent) :
    lines (events ++ events') = lines events ++ lines events' := List.filterMap_append ..

theorem notices_append (events events' : List LogEvent) :
    notices (events ++ events') = notices events + notices events' := List.countP_append ..

namespace HostLog

/-- The context after a message has been forwarded. -/
def charged (ctx : HostLog) (msg : Str) : HostLog :=
  { ctx with
    logLineCount := ctx.logLineCount + 1
    logBytes := ctx.logBytes + Str.utf8Len (truncateUtf8 msg MAX_LOG_MSG_BYTES) }

/-- The context after the notice. -/
def notified (ctx : HostLog) : HostLog := { ctx with logSuppressedNotified := true }

section
variable {ε : Type} {ctx : HostLog} {calls : List (Str × Str)}

theorem exhausted_iff : ctx.exhausted = true ↔
    MAX_LOG_LINES_PER_INVOCATION ≤ ctx.logLineCount ∨
      MAX_LOG_BYTES_PER_INVOCATION ≤ ctx.logBytes := by
  rw [exhausted, Bool.or_eq_true, decide_eq_true_eq, decide_eq_true_eq]

theorem not_exhausted_iff : ctx.exhausted = false ↔
    ctx.logLineCount < MAX_LOG_LINES_PER_INVOCATION ∧
      ctx.logBytes < MAX_LOG_BYTES_PER_INVOCATION := by
  rw [← Bool.not_eq_true, exhausted_iff]
  omega

/-- A call with a cap reached: at most the notice is sent. -/
theorem emits_suppressed (q : Str × Str) (calls : List (Str × Str)) (hx : ctx.exhausted = true) :
    ∃ events, lines events = [] ∧
      notices events = (if ctx.logSuppressedNotified then 0 else 1) ∧
        ctx.emits (ε := ε) (q :: calls) =
          (.ok () :: (ctx.notified.emits calls).1,
            events ++ (ctx.notified.emits (ε := ε) calls).2.1,
              (ctx.notified.emits (ε := ε) calls).2.2) := by
  cases hn : ctx.logSuppressedNotified with
  | true =>
    have hsame : ctx.notified = ctx := by
      rw [notified, ← hn]
    refine ⟨[], rfl, rfl, ?_⟩
    simp only [emits, emit, hx, hn, if_true, hsame]
  | false =>
    refine ⟨[.suppressed ctx.tenantId ctx.fnName], rfl, rfl, ?_⟩
    simp only [emits, emit, hx, hn, if_true, notified]
    rfl

/-- A call with no cap reached: the truncated message is forwarded and charged. -/
theorem emits_forwarded (q : Str × Str) (calls : List (Str × Str)) (hx : ctx.exhausted = false) :
    ∃ events, lines events = [truncateUtf8 q.2 MAX_LOG_MSG_BYTES] ∧ notices events = 0 ∧
      ctx.emits (ε := ε) (q :: calls) =
        (.ok () :: ((ctx.charged q.2).emits calls).1,
          events ++ ((ctx.charged q.2).emits (ε := ε) calls).2.1,
            ((ctx.charged q.2).emits (ε := ε) calls).2.2) := by
  refine ⟨[.guestLog (.ofStr q.1) ctx.tenantId ctx.fnName
    (truncateUtf8 q.2 MAX_LOG_MSG_BYTES)], rfl, rfl, ?_⟩
  simp only [emits, emit, hx]
  rfl

/-! ## All the calls of a guest -/

theorem emits_results : ∀ r ∈ (ctx.emits (ε := ε) calls).1, r = .ok () := by
  induction calls generalizing ctx with
  | nil =>
    intro r hr
    cases hr
  | cons q calls ih =>
    intro r hr
    cases hx : ctx.exhausted with
    | true =>
      obtain ⟨events, -, -, hemits⟩ := emits_suppressed (ε := ε) q calls hx
      rw [hemits] at hr
      rcases List.mem_cons.1 hr with rfl | hr
      · rfl
      · exact ih r hr
    | false =>
      obtain ⟨events, -, -, hemits⟩ := emits_forwarded (ε := ε) q calls hx
      rw [hemits] at hr
      rcases List.mem_cons.1 hr with rfl | hr
      · rfl
      · exact ih r hr

/-- There is one notice at most. -/
theorem emits_notices : notices (ctx.emits (ε := ε) calls).2.1 ≤
    if ctx.logSuppressedNotified then 0 else 1 := by
  induction calls generalizing ctx with
  | nil => exact Nat.zero_le _
  | cons q calls ih =>
    cases hx : ctx.exhausted with
    | true =>
      obtain ⟨events, -, hnotices, hemits⟩ :=
        emits_suppressed (ε := ε) q calls hx
      have hrest : notices (ctx.notified.emits (ε := ε) calls).2.1 ≤ 0 := ih
      rw [hemits, notices_append, hnotices]
      omega
    | false =>
      obtain ⟨events, -, hnotices, hemits⟩ :=
        emits_forwarded (ε := ε) q calls hx
      rw [hemits, notices_append, hnotices, Nat.zero_add]
      exact ih

/-- A cap once reached, nothing more is forwarded. -/
theorem emits_exhausted (hx : ctx.exhausted = true) :
    lines (ctx.emits (ε := ε) calls).2.1 = [] := by
  induction calls generalizing ctx with
  | nil => rfl
  | cons q calls ih =>
    obtain ⟨events, hlines, -, hemits⟩ := emits_suppressed (ε := ε) q calls hx
    rw [hemits, lines_append, hlines, List.nil_append]
    exact ih hx

/-- The first messages are forwarded, truncated, and no more than there are lines left. -/
theorem emits_lines (ctx : HostLog) (calls : List (Str × Str)) :
    lines (ctx.emits (ε := ε) calls).2.1 =
        (calls.take (lines (ctx.emits (ε := ε) calls).2.1).length).map
          (fun q => truncateUtf8 q.2 MAX_LOG_MSG_BYTES) ∧
      (lines (ctx.emits (ε := ε) calls).2.1).length ≤
        MAX_LOG_LINES_PER_INVOCATION - ctx.logLineCount := by
  induction calls generalizing ctx with
  | nil => exact ⟨rfl, Nat.zero_le _⟩
  | cons q calls ih =>
    cases hx : ctx.exhausted with
    | true =>
      rw [emits_exhausted hx]
      exact ⟨rfl, Nat.zero_le _⟩
    | false =>
      obtain ⟨events, hline, -, hemits⟩ := emits_forwarded (ε := ε) q calls hx
      obtain ⟨hlines, hlen⟩ := @ih (ctx.charged q.2)
      have hleft := (not_exhausted_iff.1 hx).1
      have hcount : (ctx.charged q.2).logLineCount = ctx.logLineCount + 1 := rfl
      rw [hemits, lines_append, hline, List.singleton_append, List.length_cons,
        List.take_succ_cons, List.map_cons, ← hlines]
      exact ⟨rfl, by omega⟩

/-- The bytes stay within the cap when the lines that are left fit, or fill it exactly. -/
theorem emits_bytes {ctx : HostLog} (calls : List (Str × Str))
    (hbytes : ctx.logBytes ≤ MAX_LOG_BYTES_PER_INVOCATION)
    (hcount : ctx.logLineCount ≤ MAX_LOG_LINES_PER_INVOCATION) :
    ctx.logBytes + ((lines (ctx.emits (ε := ε) calls).2.1).map Str.utf8Len).sum ≤
        MAX_LOG_BYTES_PER_INVOCATION ↔
      ctx.logBytes + ((forwardedSizes calls).take
          (MAX_LOG_LINES_PER_INVOCATION - ctx.logLineCount)).sum ≤
        MAX_LOG_BYTES_PER_INVOCATION ∨
      ∃ k ≤ MAX_LOG_LINES_PER_INVOCATION - ctx.logLineCount,
        ctx.logBytes + ((forwardedSizes calls).take k).sum = MAX_LOG_BYTES_PER_INVOCATION := by
  induction calls generalizing ctx with
  | nil => simp [emits, lines, forwardedSizes, hbytes]
  | cons q calls ih =>
    cases hx : ctx.exhausted with
    | true =>
      rw [emits_exhausted hx]
      refine ⟨fun _ => ?_, fun _ => by simpa using hbytes⟩
      rcases exhausted_iff.1 hx with hlines | hfull
      · left
        rw [Nat.sub_eq_zero_of_le hlines]
        simpa using hbytes
      · right
        exact ⟨0, Nat.zero_le _, by simp; omega⟩
    | false =>
      obtain ⟨events, hline, -, hemits⟩ := emits_forwarded (ε := ε) q calls hx
      obtain ⟨hlt, hbelow⟩ := not_exhausted_iff.1 hx
      obtain ⟨left, hleft⟩ : ∃ left, MAX_LOG_LINES_PER_INVOCATION - ctx.logLineCount = left + 1 :=
        ⟨_, (Nat.succ_pred_eq_of_pos (by omega)).symm⟩
      have hleft' : MAX_LOG_LINES_PER_INVOCATION - (ctx.charged q.2).logLineCount = left := by
        show MAX_LOG_LINES_PER_INVOCATION - (ctx.logLineCount + 1) = left
        omega
      have hcount' : (ctx.charged q.2).logLineCount ≤ MAX_LOG_LINES_PER_INVOCATION := hlt
      -- the message that is forwarded, and the sums with and without it
      have hcharged : (ctx.charged q.2).logBytes =
          ctx.logBytes + Str.utf8Len (truncateUtf8 q.2 MAX_LOG_MSG_BYTES) := rfl
      have hsizes : forwardedSizes (q :: calls) =
          Str.utf8Len (truncateUtf8 q.2 MAX_LOG_MSG_BYTES) :: forwardedSizes calls := rfl
      have hfirst : (∃ k ≤ left + 1, ctx.logBytes + ((forwardedSizes (q :: calls)).take k).sum =
            MAX_LOG_BYTES_PER_INVOCATION) ↔
          ∃ k ≤ left, (ctx.charged q.2).logBytes + ((forwardedSizes calls).take k).sum =
            MAX_LOG_BYTES_PER_INVOCATION := by
        constructor
        · rintro ⟨k, hk, hsum⟩
          cases k with
          | zero =>
            simp only [List.take_zero, List.sum_nil] at hsum
            omega
          | succ k =>
            rw [hsizes, List.take_succ_cons, List.sum_cons, ← Nat.add_assoc] at hsum
            exact ⟨k, by omega, hsum⟩
        · rintro ⟨k, hk, hsum⟩
          refine ⟨k + 1, by omega, ?_⟩
          rw [hsizes, List.take_succ_cons, List.sum_cons, ← Nat.add_assoc]
          exact hsum
      rw [hemits, lines_append, hline, List.singleton_append, List.map_cons, List.sum_cons,
        ← Nat.add_assoc, ← hcharged, hleft, hfirst, hsizes, List.take_succ_cons, List.sum_cons,
        ← Nat.add_assoc, ← hcharged]
      by_cases hover : (ctx.charged q.2).logBytes ≤ MAX_LOG_BYTES_PER_INVOCATION
      · rw [← hleft']
        exact ih hover hcount'
      · constructor
        · intro h
          omega
        · rintro (h | ⟨k, -, h⟩) <;> omega

end

end HostLog

/-- The byte cap, for all the calls of an invocation. -/
theorem HostLog.new_bytes {ε : Type} (tenant func : Str) (calls : List (Str × Str)) :
    ((lines ((HostLog.new tenant func).emits (ε := ε) calls).2.1).map Str.utf8Len).sum ≤
        MAX_LOG_BYTES_PER_INVOCATION ↔
      ((forwardedSizes calls).take MAX_LOG_LINES_PER_INVOCATION).sum ≤
          MAX_LOG_BYTES_PER_INVOCATION ∨
        ∃ k ≤ MAX_LOG_LINES_PER_INVOCATION,
          ((forwardedSizes calls).take k).sum = MAX_LOG_BYTES_PER_INVOCATION := by
  have hfits : (HostLog.new tenant func).logBytes ≤ MAX_LOG_BYTES_PER_INVOCATION := Nat.zero_le _
  have hbytes := HostLog.emits_bytes (ε := ε) calls hfits (Nat.zero_le _)
  simpa only [HostLog.new, Nat.zero_add, Nat.sub_zero] using hbytes

/-- The caps hold of a guest's calls exactly when its first hundred messages, truncated, fit into
the byte cap, or some number of them fills it to the last byte. -/
theorem log_caps_iff {ε : Type} (tenant func : Str) (calls : List (Str × Str)) :
    LogCapped (ε := ε) calls ((HostLog.new tenant func).emits calls).1
        ((HostLog.new tenant func).emits (ε := ε) calls).2.1 ↔
      ((forwardedSizes calls).take MAX_LOG_LINES_PER_INVOCATION).sum ≤
          MAX_LOG_BYTES_PER_INVOCATION ∨
        ∃ k ≤ MAX_LOG_LINES_PER_INVOCATION,
          ((forwardedSizes calls).take k).sum = MAX_LOG_BYTES_PER_INVOCATION := by
  rw [← HostLog.new_bytes (ε := ε) tenant func]
  obtain ⟨hlines, hlen⟩ :=
    HostLog.emits_lines (ε := ε) (HostLog.new tenant func) calls
  refine ⟨fun h => h.bytes, fun h => ?_⟩
  constructor
  · exact hlen
  · intro msg hmsg
    rw [hlines] at hmsg
    obtain ⟨q, -, rfl⟩ := List.mem_map.1 hmsg
    exact utf8Len_truncateUtf8 q.2 _
  · have hprefixes : ∀ n, List.Forall₂ (fun msg q => msg <+: q.2)
        ((calls.take n).map fun q => truncateUtf8 q.2 MAX_LOG_MSG_BYTES) (calls.take n) :=
      fun n => List.forall₂_map_left_iff.2
        (List.forall₂_same.2 fun q _ => truncateUtf8_isPrefix q.2 _)
    have hforall := hprefixes (lines ((HostLog.new tenant func).emits (ε := ε) calls).2.1).length
    rwa [← hlines] at hforall
  · exact h
  · exact HostLog.emits_notices
  · exact HostLog.emits_results

/-! Fifteen full messages and one a byte short leave one byte, for a message of 4096. -/

def asciiCalls (sizes : List Nat) : List (Str × Str) :=
  sizes.map fun n => ("info".toList, List.replicate n 'a')

theorem forwardedSizes_ascii {sizes : List Nat} (h : ∀ n ∈ sizes, n ≤ MAX_LOG_MSG_BYTES) :
    forwardedSizes (asciiCalls sizes) = sizes := by
  rw [forwardedSizes, asciiCalls, List.map_map]
  refine (List.map_congr_left fun n hn => ?_).trans (List.map_id sizes)
  have hlen : Str.utf8Len (List.replicate n 'a') = n := by
    rw [Str.utf8Len_replicate]
    exact Nat.mul_one n
  simp only [Function.comp_apply, id_eq]
  rw [truncateUtf8, if_pos (by rw [hlen]; exact h n hn), hlen]

def crossingSizes : List Nat := List.replicate 15 4096 ++ [4095, 4096]

theorem log_caps_crossed :
    ¬LogCapped (ε := Unit) (asciiCalls crossingSizes)
      ((HostLog.new ['t'] ['f']).emits (asciiCalls crossingSizes)).1
      ((HostLog.new ['t'] ['f']).emits (ε := Unit) (asciiCalls crossingSizes)).2.1 := by
  intro h
  have hbytes := (HostLog.new_bytes _ _ _).1 h.bytes
  rw [forwardedSizes_ascii (by decide)] at hbytes
  revert hbytes
  decide +kernel

end Warpline
