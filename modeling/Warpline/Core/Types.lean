import Warpline.Std.Str
import Warpline.Std.Usize

/-!
# Names, limits and the store limiter (`types.rs`)

`TenantLimiter` is the resource limiter installed on one wasmtime `Store`: it keeps the running
total of all memories (and of all tables) and answers every growth request from it.
-/

set_option autoImplicit false

namespace Warpline

/-! ## Names -/

/-- `^[a-z0-9][a-z0-9_-]{0,62}$`. -/
def validName (s : Str) : Bool :=
  let isHead := fun c : Char => c.isLower || c.isDigit
  let isTail := fun c : Char => isHead c || c == '_' || c == '-'
  match s with
  | [] => false
  | c :: rest => Str.utf8Len s ≤ 63 && isHead c && rest.all isTail

/-- A valid name is an ordinary path component, and no temporary file's. -/
theorem validName_spec {s : Str} (h : validName s = true) :
    '/' ∉ s ∧ '.' ∉ s ∧ s ≠ [] := by
  cases s with
  | nil => cases h
  | cons c rest =>
    simp only [validName, Bool.and_eq_true, List.all_eq_true] at h
    have hall : ∀ x ∈ c :: rest, x ≠ '/' ∧ x ≠ '.' := by
      intro x hx
      have hx' : (x.isLower || x.isDigit || x == '_' || x == '-') = true := by
        obtain rfl | hx := List.mem_cons.1 hx
        · simp [h.1.2]
        · simpa using h.2 x hx
      constructor <;> rintro rfl <;> exact absurd hx' (by decide)
    exact ⟨fun hm => (hall _ hm).1 rfl, fun hm => (hall _ hm).2 rfl, by simp⟩

/-! ## Validators -/

def MIN_CPU_BUDGET_MS : Int := 1
def MAX_CPU_BUDGET_MS : Int := 10000
def MIN_MEM_CAP_BYTES : Int := 1024 * 1024
def MAX_MEM_CAP_BYTES : Int := 512 * 1024 * 1024

/-- Max `allowed_hosts` entries. -/
def MAX_ALLOWED_HOSTS : Nat := 64

inductive ConfigError
  | cpuBudgetRange
  | memCapRange
  | tooManyHosts
  | invalidHost (host : Str)
  deriving DecidableEq, Repr

def validateCpuBudgetMs (v : Int) : Except ConfigError Unit :=
  if MIN_CPU_BUDGET_MS ≤ v ∧ v ≤ MAX_CPU_BUDGET_MS then .ok () else .error .cpuBudgetRange

def validateMemCapBytes (v : Int) : Except ConfigError Unit :=
  if MIN_MEM_CAP_BYTES ≤ v ∧ v ≤ MAX_MEM_CAP_BYTES then .ok () else .error .memCapRange

/-- `i64::try_from(v).unwrap_or(i64::MAX)`. -/
def i64OfUsize (v : Usize) : Int := if v.toNat < 2 ^ 63 then v.toNat else 2 ^ 63 - 1

/-- An accepted cap is the number itself, within the range. -/
theorem memCap_of_valid {cap : Usize} (h : validateMemCapBytes (i64OfUsize cap) = .ok ()) :
    2 ^ 20 ≤ cap.toNat ∧ cap.toNat ≤ 2 ^ 29 := by
  have hv : MIN_MEM_CAP_BYTES ≤ i64OfUsize cap ∧ i64OfUsize cap ≤ MAX_MEM_CAP_BYTES := by
    unfold validateMemCapBytes at h
    split at h
    · assumption
    · cases h
  unfold i64OfUsize MIN_MEM_CAP_BYTES MAX_MEM_CAP_BYTES at hv
  split at hv <;> omega

theorem cpuBudget_of_valid {ms : UInt64} (h : validateCpuBudgetMs (i64OfUsize ms) = .ok ()) :
    1 ≤ ms.toNat ∧ ms.toNat ≤ 10000 := by
  have hv : MIN_CPU_BUDGET_MS ≤ i64OfUsize ms ∧ i64OfUsize ms ≤ MAX_CPU_BUDGET_MS := by
    unfold validateCpuBudgetMs at h
    split at h
    · assumption
    · cases h
  unfold i64OfUsize MIN_CPU_BUDGET_MS MAX_CPU_BUDGET_MS at hv
  split at hv <;> omega

/-- `trim_end_matches('.')`. -/
def trimDots (host : Str) : Str := host.rdropWhile (· = '.')

/-- The stored form of each host. `parseHost` is `url::Host::parse`, with what the host displays
as, which is ASCII: `to_lowercase` is its ASCII part. -/
def validateAllowedHosts (parseHost : Str → Option Str) (hosts : List Str) :
    Except ConfigError (List Str) :=
  if MAX_ALLOWED_HOSTS < hosts.length then .error .tooManyHosts
  else hosts.mapM fun h =>
    match parseHost h with
    | none => .error (.invalidHost h)
    | some host => .ok (trimDots (host.map Char.toLower))

structure Limits where
  cpuBudgetMs : UInt64
  memCapBytes : Usize
  allowedHosts : List Str
  deriving DecidableEq, Repr

namespace Limits

/-- `Limits::default()`. -/
def default : Limits := ⟨100, 64 * 1024 * 1024, []⟩

def new (cpuBudgetMs : UInt64) (memCapBytes : Usize) : Except ConfigError Limits := do
  validateCpuBudgetMs (i64OfUsize cpuBudgetMs)
  validateMemCapBytes (i64OfUsize memCapBytes)
  pure ⟨cpuBudgetMs, memCapBytes, []⟩

def withAllowedHosts (parseHost : Str → Option Str) (l : Limits) (hosts : List Str) :
    Except ConfigError Limits := do
  let allowedHosts ← validateAllowedHosts parseHost hosts
  pure { l with allowedHosts }

end Limits

/-! ## The limiter -/

structure TenantLimiter where
  memCapBytes : Usize
  totalBytes : Usize
  peakBytes : Usize
  capHit : Bool
  tableCapElems : Usize
  totalTableElems : Usize
  deriving DecidableEq, Repr

namespace TenantLimiter

def new (memCapBytes : Usize) : TenantLimiter where
  memCapBytes
  totalBytes := 0
  peakBytes := 0
  capHit := false
  tableCapElems := 10000
  totalTableElems := 0

/-- `max.is_some_and(|m| desired > m)`: the object's own declared maximum rejects the growth. -/
def exceedsMax (max : Option Usize) (desired : Usize) : Bool := max.any (· < desired)

def memoryGrowing (l : TenantLimiter) (current desired : Usize) (max : Option Usize) :
    Bool × TenantLimiter :=
  if exceedsMax max desired then (false, l)
  else
    let newTotal := l.totalBytes + Usize.saturatingSub desired current
    if newTotal ≤ l.memCapBytes then
      (true, { l with totalBytes := newTotal, peakBytes := Max.max l.peakBytes newTotal })
    else (false, { l with capHit := true })

def tableGrowing (l : TenantLimiter) (current desired : Usize) (max : Option Usize) :
    Bool × TenantLimiter :=
  if exceedsMax max desired then (false, l)
  else
    let newTotal := l.totalTableElems + Usize.saturatingSub desired current
    if newTotal ≤ l.tableCapElems then (true, { l with totalTableElems := newTotal })
    else (false, l)

/-- `memory_growing` refuses and at most notes the hit, or charges the new total. -/
theorem memoryGrowing_spec (l : TenantLimiter) (current desired : Usize) (max : Option Usize) :
    let newTotal := l.totalBytes + Usize.saturatingSub desired current
    ((exceedsMax max desired = true ∨ l.memCapBytes < newTotal) ∧
        ∃ hit, l.memoryGrowing current desired max = (false, { l with capHit := hit })) ∨
      (exceedsMax max desired = false ∧ newTotal ≤ l.memCapBytes ∧
        l.memoryGrowing current desired max = (true, { l with
          totalBytes := newTotal, peakBytes := Max.max l.peakBytes newTotal })) := by
  intro newTotal
  by_cases hm : exceedsMax max desired = true
  · exact .inl ⟨.inl hm, l.capHit, by simp [memoryGrowing, hm]⟩
  by_cases hc : newTotal ≤ l.memCapBytes
  · exact .inr ⟨by simpa using hm, hc, by simp [memoryGrowing, hm, show _ ≤ _ from hc, newTotal]⟩
  · have hlt := UInt64.not_le.1 hc
    refine .inl ⟨.inr hlt, true, ?_⟩
    simp only [memoryGrowing, hm]
    exact if_neg hc

theorem tableGrowing_spec (l : TenantLimiter) (current desired : Usize) (max : Option Usize) :
    let newTotal := l.totalTableElems + Usize.saturatingSub desired current
    ((exceedsMax max desired = true ∨ l.tableCapElems < newTotal) ∧
        l.tableGrowing current desired max = (false, l)) ∨
      (exceedsMax max desired = false ∧ newTotal ≤ l.tableCapElems ∧
        l.tableGrowing current desired max = (true, { l with totalTableElems := newTotal })) := by
  intro newTotal
  by_cases hm : exceedsMax max desired = true
  · exact .inl ⟨.inl hm, by simp [tableGrowing, hm]⟩
  by_cases hc : newTotal ≤ l.tableCapElems
  · exact .inr ⟨by simpa using hm, hc, by simp [tableGrowing, hm, show _ ≤ _ from hc, newTotal]⟩
  · have hlt := UInt64.not_le.1 hc
    refine .inl ⟨.inr hlt, ?_⟩
    simp only [tableGrowing, hm]
    exact if_neg hc

end TenantLimiter

end Warpline
