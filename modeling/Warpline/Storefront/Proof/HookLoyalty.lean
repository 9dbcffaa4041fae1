import Warpline.Core.Proof.KvIsolation
import Warpline.Storefront.Proof.HookCalls

/-!
# A loyalty discount is never given early

`stored`: the order counter a customer has in the store. Hooks of any number of orders at once read
it and write it back, so some orders may not be counted; but the counter never runs ahead of the
orders placed (`LoyaltyInv`), and no customer gets the discount before the third one.
-/

set_option autoImplicit false

namespace Warpline

open Conc

namespace Hook

/-! ## The counter -/

/-- What a hook reads as the number of the customer's earlier orders. -/
def stored (kv : MemKv) (shop customer : Str) : Nat :=
  (((kv.entries.lookup (shop, orderKey customer)).bind counterOf).getD 0).toNat

theorem orderKey_injective : Function.Injective orderKey := fun _ _ h => List.append_cancel_left h

/-- A wrapping successor is at most the successor. -/
theorem toNat_succ_le (n : UInt64) : (n + 1).toNat ≤ n.toNat + 1 := by
  rw [UInt64.toNat_add]
  exact Nat.mod_le _ _

/-- What a put leaves of the entries. -/
theorem put_lookup (kv : MemKv) (tenant key : Str) (value : List UInt8) (k : Str × Str) :
    (kv.put tenant key value).2.entries.lookup k = kv.entries.lookup k ∨
      k = (tenant, key) ∧ (kv.put tenant key value).2.entries.lookup k = some value := by
  obtain ⟨-, heq⟩ | ⟨-, heq⟩ := kv.put_spec tenant key value
  · exact .inl (by rw [heq])
  · rw [heq]
    by_cases hk : k = (tenant, key)
    · subst hk
      exact .inr ⟨rfl, AList.lookup_insert _⟩
    · exact .inl (AList.lookup_insert_ne hk)

/-- A put changes the counter it is of to the number it writes, or no counter. -/
theorem stored_put (kv : MemKv) (tenant customer : Str) (n : UInt64) (shop other : Str) :
    stored (kv.put tenant (orderKey customer) (Str.utf8 (Usize.display n))).2 shop other =
        stored kv shop other ∨
      (shop = tenant ∧ other = customer) ∧
        stored (kv.put tenant (orderKey customer) (Str.utf8 (Usize.display n))).2 shop other =
          n.toNat := by
  unfold stored
  obtain h | ⟨hk, h⟩ := put_lookup kv tenant (orderKey customer) (Str.utf8 (Usize.display n))
    (shop, orderKey other)
  · exact .inl (by rw [h])
  · obtain ⟨rfl, hkey⟩ := Prod.mk.inj hk
    refine .inr ⟨⟨rfl, orderKey_injective hkey⟩, ?_⟩
    rw [h, Option.bind_some, counterOf_display]
    rfl

/-! ## Orders placed -/

section
variable {τ : Type} [DecidableEq τ] (shop : τ → Str)

/-- An answered put of a customer's counter. -/
def placedBy (a customer : Str) : τ × (c : HookCall) × HookRes c → Bool
  | (t, ⟨.kvPut key _, _⟩) => shop t = a ∧ key = orderKey customer
  | _ => false

/-- The orders of a customer that have been counted: the hooks that have put the counter. -/
def placed (a customer : Str) (tr : Trace τ HookCall HookRes) : Finset τ :=
  ((tr.filter (placedBy shop a customer)).map Prod.fst).toFinset

variable {shop}

theorem mem_placed {a customer : Str} {tr : Trace τ HookCall HookRes} {t : τ} :
    t ∈ placed shop a customer tr ↔
      shop t = a ∧ ∃ value r, (t, ⟨.kvPut (orderKey customer) value, r⟩) ∈ tr := by
  simp only [placed, List.mem_toFinset, List.mem_map, List.mem_filter]
  constructor
  · rintro ⟨⟨u, c, r⟩, ⟨hm, hp⟩, rfl⟩
    cases c with
    | kvPut key value =>
      obtain ⟨hshop, rfl⟩ := of_decide_eq_true hp
      exact ⟨hshop, value, r, hm⟩
    | _ => cases hp
  · rintro ⟨hshop, value, r, hm⟩
    exact ⟨_, ⟨hm, decide_eq_true ⟨hshop, rfl⟩⟩, rfl⟩

theorem placed_mono {a customer : Str} {tr tr' : Trace τ HookCall HookRes} (h : tr <:+ tr') :
    placed shop a customer tr ⊆ placed shop a customer tr' := by
  intro t ht
  obtain ⟨hshop, value, r, hm⟩ := mem_placed.1 ht
  exact mem_placed.2 ⟨hshop, value, r, h.subset hm⟩

/-- A hook that has put nothing yet. -/
def Unplaced (t : τ) (tr : Trace τ HookCall HookRes) : Prop :=
  ∀ key value r, (⟨.kvPut key value, r⟩ : (c : HookCall) × HookRes c) ∉ tr.of t

/-- The first put of a hook counts one more order. -/
theorem placed_put {t : τ} {customer : Str} {value : List UInt8} {r : Unit}
    {tr : Trace τ HookCall HookRes} (h : Unplaced t tr) :
    (placed shop (shop t) customer ((t, ⟨.kvPut (orderKey customer) value, r⟩) :: tr)).card =
      (placed shop (shop t) customer tr).card + 1 := by
  have hcons : placed shop (shop t) customer ((t, ⟨.kvPut (orderKey customer) value, r⟩) :: tr) =
      insert t (placed shop (shop t) customer tr) := by
    simp [placed, placedBy]
  rw [hcons, Finset.card_insert_of_notMem]
  intro ht
  obtain ⟨-, value', r', hm⟩ := mem_placed.1 ht
  exact h _ _ _ (Trace.mem_of.2 hm)

theorem Unplaced.cons {t : τ} {c : HookCall} {r : HookRes c} {tr : Trace τ HookCall HookRes}
    (h : Unplaced t tr) (hc : ∀ key value, c ≠ .kvPut key value) : Unplaced t ((t, ⟨c, r⟩) :: tr) := by
  intro key value r' hm
  rw [Trace.of_cons_self] at hm
  obtain heq | hm := List.mem_cons.1 hm
  · cases heq
    exact hc _ _ rfl
  · exact h _ _ _ hm

end

/-! ## The invariant -/

section
variable {τ : Type} [DecidableEq τ]

/-- The orders of `customer` that thread `t` can know of. -/
def known (shop : τ → Str) (kv₀ : MemKv) (t : τ) (customer : Str) (s : HookState τ) : Nat :=
  stored kv₀ (shop t) customer + (placed shop (shop t) customer s.trace).card

/-- No counter is ahead of the orders known. -/
structure LoyaltyInv (shop : τ → Str) (kv₀ : MemKv) (s : HookState τ) : Prop where
  tenant : ∀ t, (s.state.ctx t).tenantId = shop t
  counter : ∀ t customer, stored s.state.kv (shop t) customer ≤ known shop kv₀ t customer s

/-- What a hook sees others do. -/
structure LoyaltyRely (t : τ) (s s' : HookState τ) : Prop where
  suffix : s.trace <:+ s'.trace
  own : s'.trace.of t = s.trace.of t

def loyaltyThread (shop : τ → Str) (kv₀ : MemKv) (t : τ) : Thread (HookState τ) HookCall HookRes where
  exec := fun s c r s' => LoyaltyInv shop kv₀ s ∧
    (∃ api, hookExec t api s.state c = some (r, s'.state)) ∧ s'.trace = (t, ⟨c, r⟩) :: s.trace
  rely := fun _ => LoyaltyRely t
  guar := fun _ s s' => LoyaltyInv shop kv₀ s' ∧ ∀ u, u ≠ t → LoyaltyRely u s s'

variable {shop : τ → Str} {kv₀ : MemKv} {t : τ} {s s' : HookState τ}

theorem known_mono {customer : Str} (h : s.trace <:+ s'.trace) :
    known shop kv₀ t customer s ≤ known shop kv₀ t customer s' :=
  Nat.add_le_add_left (Finset.card_le_card (placed_mono h)) _

/-- What has been counted only grows. -/
theorem loyalty_stable {c : Option HookCall} (customer : Str) (P : Nat → Prop)
    (hP : ∀ m n, m ≤ n → P m → P n) :
    (loyaltyThread shop kv₀ t).Stable c fun s => P (known shop kv₀ t customer s) :=
  fun _ _ h hr => hP _ _ (known_mono hr.suffix) h

theorem unplaced_stable {c : Option HookCall} :
    (loyaltyThread shop kv₀ t).Stable c fun s => Unplaced t s.trace := by
  intro s s' h hr
  unfold Unplaced
  rw [hr.own]
  exact h

theorem loyaltyRely_cons {c : HookCall} {r : HookRes c} (h : s'.trace = (t, ⟨c, r⟩) :: s.trace)
    {u : τ} (hu : u ≠ t) : LoyaltyRely u s s' :=
  ⟨h ▸ List.suffix_cons _ _, by rw [h, Trace.of_cons_ne (Ne.symm hu)]⟩

theorem true_stable {c : Option HookCall} : (loyaltyThread shop kv₀ t).Stable c fun _ => True :=
  fun _ _ _ _ => trivial

/-- A call that leaves the store keeps the invariant. -/
theorem loyalty_same {c : HookCall} {r : HookRes c} (he : (loyaltyThread shop kv₀ t).exec s c r s')
    (h : s'.state = s.state) : (loyaltyThread shop kv₀ t).guar c s s' := by
  obtain ⟨⟨htenant, hcounter⟩, -, htr⟩ := he
  have hsuf : s.trace <:+ s'.trace := htr ▸ List.suffix_cons _ _
  refine ⟨⟨?_, fun u customer => ?_⟩, fun u hu => loyaltyRely_cons htr hu⟩
  · rw [h]
    exact htenant
  · rw [h]
    exact Nat.le_trans (hcounter u customer) (known_mono hsuf)

theorem exec_kvGet {key : Str} {r : Option (List UInt8)} {api : Except Str HttpOut.Response}
    {g g' : Guests τ} (h : hookExec t api g (.kvGet key) = some (r, g')) :
    g' = g ∧ r = g.kv.entries.lookup ((g.ctx t).tenantId, key) := by
  simp only [hookExec, Guests.call] at h
  split at h
  · rename_i value g'' heq
    cases h
    simp only [Prod.mk.injEq, GuestReply.got.injEq] at heq
    obtain ⟨hget, rfl⟩ := heq
    refine ⟨rfl, ?_⟩
    unfold HostCtx.get at hget
    split at hget
    · cases hget
    · simp only [MemKv.get, Except.mapError, Except.ok.injEq] at hget
      exact hget.symm
  · cases h

theorem exec_kvPut {key : Str} {value : List UInt8} {r : Unit} {api : Except Str HttpOut.Response}
    {g g' : Guests τ} (h : hookExec t api g (.kvPut key value) = some (r, g')) :
    (∀ u, (g'.ctx u).tenantId = (g.ctx u).tenantId) ∧
      (g'.kv = g.kv ∨ g'.kv = (g.kv.put (g.ctx t).tenantId key value).2) := by
  simp only [hookExec, Guests.call] at h
  split at h
  · rename_i g'' heq
    cases h
    simp only [Prod.mk.injEq] at heq
    obtain ⟨-, rfl⟩ := heq
    obtain ⟨hid, hkv⟩ := (g.ctx t).put_kv g.kv key value
    refine ⟨fun u => ?_, hkv⟩
    by_cases hu : u = t
    · subst hu
      simpa using hid
    · simp [hu]
  · cases h

theorem sat_kvGet {customer : Str} (hu : Unplaced t s.trace) : Sat (loyaltyThread shop kv₀ t)
    (fun (v : Option (List UInt8)) s =>
      ((v.bind counterOf).getD 0).toNat ≤ known shop kv₀ t customer s ∧ Unplaced t s.trace)
    (Prog.perform (HookCall.kvGet (orderKey customer))) s := by
  refine .perform _ unplaced_stable hu fun s₁ r s₂ hu he => ?_
  obtain ⟨api, hx⟩ := he.2.1
  obtain ⟨hstate, rfl⟩ := exec_kvGet hx
  refine ⟨loyalty_same he hstate, ?_, ?_⟩
  · have hsuf : s₁.trace <:+ s₂.trace := he.2.2 ▸ List.suffix_cons _ _
    rw [he.1.tenant t]
    exact Nat.le_trans (he.1.counter t customer) (known_mono hsuf)
  · rw [he.2.2]
    exact hu.cons fun _ _ h => by cases h

/-- The counter is written back under what is known by then, once. -/
theorem sat_kvPut {customer : Str} {k : UInt64}
    (h : k.toNat ≤ known shop kv₀ t customer s + 1 ∧ Unplaced t s.trace) :
    Sat (loyaltyThread shop kv₀ t) (fun (_ : Unit) s => k.toNat ≤ known shop kv₀ t customer s)
      (Prog.perform (HookCall.kvPut (orderKey customer) (Str.utf8 (Usize.display k)))) s := by
  have hstable : (loyaltyThread shop kv₀ t).Stable none fun s => Unplaced t s.trace :=
    unplaced_stable
  refine .perform (fun s => k.toNat ≤ known shop kv₀ t customer s + 1 ∧ Unplaced t s.trace)
    (fun s s' h hr => ⟨?_, hstable s s' h.2 hr⟩) h fun s₁ r s₂ hk he => ?_
  · exact Nat.le_trans h.1 (Nat.succ_le_succ (known_mono hr.suffix))
  obtain ⟨hinv, ⟨api, hx⟩, htr⟩ := he
  obtain ⟨hk, hu⟩ := hk
  obtain ⟨hids, hkv⟩ := exec_kvPut hx
  have hsuf : s₁.trace <:+ s₂.trace := htr ▸ List.suffix_cons _ _
  have hplaced : (placed shop (shop t) customer s₂.trace).card =
      (placed shop (shop t) customer s₁.trace).card + 1 := by
    rw [htr]
    exact placed_put hu
  have hk' : k.toNat ≤ known shop kv₀ t customer s₂ := by
    unfold known at hk ⊢
    omega
  refine ⟨⟨⟨fun u => (hids u).trans (hinv.tenant u), fun u other => ?_⟩,
    fun u hu => loyaltyRely_cons htr hu⟩, hk'⟩
  have hsame : stored s₁.state.kv (shop u) other ≤ known shop kv₀ u other s₂ :=
    Nat.le_trans (hinv.counter u other) (known_mono hsuf)
  obtain hkv | hkv := hkv
  · rw [hkv]
    exact hsame
  · rw [hkv, hinv.tenant t]
    obtain h | ⟨⟨hu, rfl⟩, h⟩ := stored_put s₁.state.kv (shop t) customer k (shop u) other
    · rw [h]
      exact hsame
    · rw [h]
      unfold known
      rw [hu]
      exact hk'

/-! ## The decision -/

/-- What a decision may be, when `n` orders of the customer may have been counted. -/
structure Fair (input : Input) (n : Nat) (d : Decision) : Prop where
  message : d.message.length ≤ Checkout.MAX_MESSAGE_CHARS
  discount : d.discountCents ≤ input.subtotalCents
  earned : d.discountCents ≠ 0 → d.approved = true ∧
    d.discountCents.toNat = input.subtotalCents.toNat * LOYALTY_PERCENT / 100 ∧
    LOYALTY_FROM_ORDER.toNat ≤ n

theorem Fair.mono {input : Input} {m n : Nat} {d : Decision} (hmn : m ≤ n) (h : Fair input m d) :
    Fair input n d :=
  ⟨h.message, h.discount, fun hd => ⟨(h.earned hd).1, (h.earned hd).2.1,
    Nat.le_trans (h.earned hd).2.2 hmn⟩⟩

theorem fair_undiscounted {input : Input} {n : Nat} {approved : Bool} {message : Str}
    (h : message.length ≤ Checkout.MAX_MESSAGE_CHARS) : Fair input n ⟨approved, 0, message⟩ :=
  ⟨h, UInt64.le_iff_toNat_le.2 (Nat.zero_le _), fun hd => absurd rfl hd⟩

theorem messageOf_length {note : Option Str} (h : ∀ n ∈ note, n.length ≤ 100)
    (discount thisOrder : UInt64) :
    (messageOf note discount thisOrder).length ≤ Checkout.MAX_MESSAGE_CHARS := by
  have hd := Usize.length_display thisOrder
  unfold messageOf Checkout.MAX_MESSAGE_CHARS
  cases note with
  | some n =>
    have := h n rfl
    show n.length ≤ 200
    omega
  | none =>
    show (if discount = 0 then _ else _ : Str).length ≤ 200
    split
    · decide
    · have h1 : ("approved: ".toList ++ Nat.toDigits 10 LOYALTY_PERCENT ++
          "% loyalty discount (order ".toList).length = 38 := by decide
      rw [List.length_append, List.length_append, h1]
      have h2 : ")".toList.length = 1 := rfl
      omega

theorem fair_approved {input : Input} {n : Nat} {k : UInt64} {message : Str}
    (hm : message.length ≤ Checkout.MAX_MESSAGE_CHARS) (hk : k.toNat ≤ n) :
    Fair input n ⟨true, discountOf k input.subtotalCents, message⟩ := by
  unfold discountOf
  split
  · rename_i hthree
    have hsub := input.subtotalCents.toNat_lt
    have hpct : input.subtotalCents.toNat * LOYALTY_PERCENT / 100 ≤ input.subtotalCents.toNat := by
      unfold LOYALTY_PERCENT
      omega
    have hnat : (UInt64.ofNat (input.subtotalCents.toNat * LOYALTY_PERCENT / 100)).toNat =
        input.subtotalCents.toNat * LOYALTY_PERCENT / 100 := Nat.mod_eq_of_lt (by omega)
    refine ⟨hm, ?_, fun _ => ⟨rfl, hnat, Nat.le_trans (UInt64.le_iff_toNat_le.1 hthree) hk⟩⟩
    rw [UInt64.le_iff_toNat_le, hnat]
    exact hpct
  · exact fair_undiscounted hm

theorem fair_stable {c : Option HookCall} {input : Input} {d : Decision} :
    (loyaltyThread shop kv₀ t).Stable c fun s => Fair input (known shop kv₀ t input.customer s) d :=
  loyalty_stable input.customer (fun n => Fair input n d) fun _ _ hmn h => h.mono hmn

theorem sat_approve {input : Input} {note : Option Str} (hn : ∀ n ∈ note, n.length ≤ 100)
    (hu : Unplaced t s.trace) : Sat (loyaltyThread shop kv₀ t)
      (fun d s => Fair input (known shop kv₀ t input.customer s) d) (approve input note) s := by
  refine .bind ((sat_kvGet hu).mono fun v s h => .bind ((sat_kvPut
    (k := (v.bind counterOf).getD 0 + 1) ⟨?_, h.2⟩).mono fun _ s h => ?_))
  · exact Nat.le_trans (toNat_succ_le _) (Nat.succ_le_succ h.1)
  · exact fair_approved (messageOf_length hn _ _) h

theorem sat_riskScore {serde : Serde} {input : Input} (hu : Unplaced t s.trace) :
    Sat (loyaltyThread shop kv₀ t) (fun _ s => Unplaced t s.trace) (riskScore serde input) s := by
  refine .bind (.perform _ unplaced_stable hu fun s₁ r s₂ hu he => ?_)
  obtain ⟨api, hx⟩ := he.2.1
  have hstate : s₂.state = s₁.state := by
    simp only [hookExec, Option.some.injEq, Prod.mk.injEq] at hx
    exact hx.2.symm
  have hu₂ : Unplaced t s₂.trace := by
    rw [he.2.2]
    exact hu.cons fun _ _ h => by cases h
  refine ⟨loyalty_same he hstate, ?_⟩
  cases r with
  | error e => exact hu₂
  | ok resp =>
    show Sat _ _ (if resp.status ≠ 200 then _ else _) s₂
    split <;> exact hu₂

theorem sat_decide {serde : Serde} {input : Input} (hu : Unplaced t s.trace) :
    Sat (loyaltyThread shop kv₀ t)
      (fun d s => Fair input (known shop kv₀ t input.customer s) d) (decide serde input) s := by
  refine .bind ((sat_riskScore hu).mono fun r s hu => ?_)
  cases r with
  | error e => exact sat_approve (by decide) hu
  | ok score =>
    show Sat _ _ (if MAX_RISK_SCORE < score then _ else _) s
    split
    · refine fair_undiscounted ?_
      have hd := Usize.length_display score
      have h1 : "rejected: risk score ".toList.length = 21 := by decide
      rw [List.length_append, h1]
      unfold Checkout.MAX_MESSAGE_CHARS
      omega
    · exact sat_approve (by simp) hu

/-- What a hook answers on a well-formed input. -/
def FairAnswer (serde : Serde) (body : List UInt8) (shop : τ → Str) (kv₀ : MemKv) (t : τ)
    (out : List UInt8) (s : HookState τ) : Prop :=
  ∀ input, serde.input body = .ok input →
    ∃ d, out = serde.toVec d ∧ Fair input (known shop kv₀ t input.customer s) d

theorem fairAnswer_stable {c : Option HookCall} {serde : Serde} {body out : List UInt8} :
    (loyaltyThread shop kv₀ t).Stable c (FairAnswer serde body shop kv₀ t out) := by
  intro s s' h hr input hi
  obtain ⟨d, hd, hf⟩ := h input hi
  exact ⟨d, hd, fair_stable _ _ hf hr⟩

theorem sat_emit {level message : Str} {P : HookState τ → Prop}
    (hP : ∀ c, (loyaltyThread shop kv₀ t).Stable c P) (h : P s)
    (hkeep : ∀ s s' : HookState τ, s.trace <:+ s'.trace → P s → P s') :
    Sat (loyaltyThread shop kv₀ t) (fun _ => P) (Prog.perform (HookCall.emit level message)) s := by
  refine .perform P (hP _) h fun s₁ r s₂ h he => ?_
  obtain ⟨api, hx⟩ := he.2.1
  have hstate : s₂.state = s₁.state := by
    simp only [hookExec, Option.some.injEq, Prod.mk.injEq] at hx
    exact hx.2.symm
  exact ⟨loyalty_same he hstate, hkeep _ _ (he.2.2 ▸ List.suffix_cons _ _) h⟩

theorem sat_handle {serde : Serde} {body : List UInt8} (hu : Unplaced t s.trace) :
    Sat (loyaltyThread shop kv₀ t) (FairAnswer serde body shop kv₀ t) (handle serde body) s := by
  unfold handle
  cases hi : serde.input body with
  | error e =>
    have hlog : ∀ d s, Sat (loyaltyThread shop kv₀ t) (fun (_ : Unit) _ => True)
        (Prog.perform (HookCall.emit "info".toList (logLine d))) s :=
      fun d s => sat_emit (P := fun _ => True) (fun _ => true_stable) trivial fun _ _ _ _ => trivial
    refine .bind ((hlog _ s).mono fun _ s _ => ?_)
    intro input h
    rw [hi] at h
    cases h
  | ok input =>
    refine .bind ((sat_decide hu).mono fun d s h => .bind ((sat_emit (fun _ => fair_stable) h
      fun s s' hsuf h => h.mono (known_mono hsuf)).mono fun _ s h => ?_))
    intro input' h'
    rw [hi] at h'
    cases h'
    exact ⟨d, rfl, h⟩

theorem loyalty_compatible : Compatible (hookSystem shop).traced (loyaltyThread shop kv₀)
    (LoyaltyInv shop kv₀) where
  exec := fun _ _ _ _ _ _ _ hJ he => ⟨hJ, he⟩
  guar := fun _ _ u _ _ _ _ hne _ _ _ hg => hg.2 u (Ne.symm hne)
  env := by
    intro pend u s s' hJ he
    exact ⟨he.2 ▸ List.suffix_rfl, by rw [he.2]⟩
  inv := fun _ _ _ _ _ hg => hg.1
  envInv := by
    intro pend s s' hJ he
    obtain ⟨⟨tenant, key, value, hne, hs⟩, htr⟩ := he
    refine ⟨fun t => by rw [hs]; exact hJ.tenant t, fun t customer => ?_⟩
    have hsame : stored (s.state.kv.put tenant key value).2 (shop t) customer =
        stored s.state.kv (shop t) customer := by
      unfold stored
      obtain h | ⟨hk, -⟩ := put_lookup s.state.kv tenant key value (shop t, orderKey customer)
      · rw [h]
      · exact absurd (Prod.mk.inj hk).1 (hne t)
    rw [hs]
    show stored (s.state.kv.put tenant key value).2 (shop t) customer ≤ _
    rw [hsame]
    exact Nat.le_trans (hJ.counter t customer) (known_mono (htr ▸ List.suffix_rfl))

end

end Hook

open Hook in
/-- **A loyalty discount is never given early.** Whatever hooks of a merchant run at once, whatever
the fraud service answers and other tenants store: a customer's counter is at most what it was and
the orders of the customer counted since, each by one hook; and a hook's decision on a well-formed
order has a short message and a discount that is at most the subtotal; where it is not zero, it is
the loyalty percentage of an approved order, and the third order at least of that customer. -/
theorem loyalty_never_early {τ : Type} [DecidableEq τ] (serde : Serde) (shop : τ → Str)
    (body : τ → List UInt8) (kv₀ : MemKv)
    {C : Config τ (HookState τ) HookCall HookRes fun _ => List UInt8}
    (hr : Reach (hookSystem shop).traced
      ⟨⟨⟨kv₀, fun t => HostCtx.new (shop t)⟩, []⟩, fun t => handle serde (body t)⟩ C) :
    (∀ t customer, stored C.shared.state.kv (shop t) customer ≤
        stored kv₀ (shop t) customer + (placed shop (shop t) customer C.shared.trace).card) ∧
      (∀ a customer, ∀ t ∈ placed shop a customer C.shared.trace, shop t = a ∧
        ∃ input, serde.input (body t) = .ok input ∧ input.customer = customer) ∧
      ∀ t out input, C.prog t = .ret out → serde.input (body t) = .ok input →
        ∃ d, out = serde.toVec d ∧ Fair input (stored kv₀ (shop t) input.customer +
          (placed shop (shop t) input.customer C.shared.trace).card) d := by
  obtain ⟨hJ, hsat⟩ := hr.sat (Q := fun t => FairAnswer serde (body t) shop kv₀ t)
    loyalty_compatible (fun t out => fairAnswer_stable)
    ⟨fun t => rfl, fun t customer => Nat.le_add_right _ _⟩
    fun t => sat_handle fun _ _ _ hm => by cases hm
  refine ⟨hJ.counter, fun a customer t ht => ?_, fun t out input hret hi => ?_⟩
  · obtain ⟨hshop, value, r, hm⟩ := mem_placed.1 ht
    obtain ⟨_, _, h⟩ | ⟨input, hi, hkey, -⟩ := hook_may hr hm
    · cases h
    · exact ⟨hshop, input, hi, (orderKey_injective hkey).symm⟩
  · have h := hsat t
    rw [hret] at h
    exact h input hi

namespace Hook

def sampleStart : Config Bool (HookState Bool) HookCall HookRes fun _ => List UInt8 :=
  ⟨⟨⟨sampleKv, fun _ => HostCtx.new ['s']⟩, []⟩, fun _ => handle sampleSerde []⟩

end Hook

open Hook in
/-- Two hooks read the counter at once: both give the discount, and one order is not counted. -/
theorem loyalty_never_early_race :
    ∃ C : Config Bool (HookState Bool) HookCall HookRes fun _ => List UInt8,
      (C.prog true).result = some [100] ∧ (C.prog false).result = some [100] ∧
      stored C.shared.state.kv ['s'] ['a'] = 3 ∧
      3 ≤ stored sampleKv ['s'] ['a'] +
        (placed (fun _ => ['s']) ['s'] ['a'] C.shared.trace).card := by
  obtain ⟨C, hplay, htrue, hfalse, hstored⟩ : ∃ C,
      sampleStart.play (tracing fun api _ t g c => hookExec t api g c)
        [(true, sampleApi), (false, sampleApi), (true, sampleApi), (false, sampleApi),
          (true, sampleApi), (false, sampleApi), (true, sampleApi), (false, sampleApi)] = some C ∧
      (C.prog true).result = some [100] ∧ (C.prog false).result = some [100] ∧
      stored C.shared.state.kv ['s'] ['a'] = 3 := ⟨_, rfl, rfl, rfl, rfl⟩
  have hr : Reach (hookSystem fun _ => ['s']).traced sampleStart C := by
    refine play_reach (tracing_sound (S := hookSystem fun _ => ['s']) ?_) hplay
    exact fun ch _ t g c r g' h => ⟨ch, h⟩
  have h := (loyalty_never_early sampleSerde (fun _ => ['s']) (fun _ => []) sampleKv hr).1 true ['a']
  exact ⟨C, htrue, hfalse, hstored, hstored ▸ h⟩

end Warpline
