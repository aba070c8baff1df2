/-
The controller (`contracts/Controller.sol`): governance announces a new address for itself, or new implementations for
proxies, and carries an announcement out at the earliest 48 hours later.

The value and the lock of an announcement lie in two maps. An `EnumerableMap` is the partial function it stores;
`set` also returns whether the key is new, `get` reverts on a missing key. What a proxy answers to `upgrade` in a
transaction is part of the transaction (`upgrade`), and it does not call the controller back. A call returns the
`upgrade` calls it made on proxies. The sender of a transaction is never the zero address.

Results:
  time_lock    what is carried out was announced before, for that very subject and value, more than 48 hours earlier,
               and not removed or carried out in between; what is pending can not be announced again
-/
import SimContracts.Core.Solidity
import SimContracts.Base

namespace SimContracts

open Solidity

/-! ## OpenZeppelin's EnumerableMap -/

abbrev EnumerableMap (κ ν : Type) := κ → Option ν

namespace EnumerableMap

variable {κ ν : Type} [DecidableEq κ]

/-- the map with the value set, and whether the key is new -/
def set (m : EnumerableMap κ ν) (k : κ) (v : ν) : EnumerableMap κ ν × Bool :=
  (Function.update m k (some v), (m k).isNone)

def get (m : EnumerableMap κ ν) (k : κ) : Res ν :=
  match m k with
  | some v => .ok v
  | none => .error (.error "EnumerableMap: nonexistent key")

def remove (m : EnumerableMap κ ν) (k : κ) : EnumerableMap κ ν := Function.update m k none

@[simp] theorem set_fst (m : EnumerableMap κ ν) (k : κ) (v : ν) : (set m k v).1 = Function.update m k (some v) := rfl

@[simp] theorem set_snd (m : EnumerableMap κ ν) (k : κ) (v : ν) : (set m k v).2 = true ↔ m k = none :=
  Option.isNone_iff_eq_none

omit [DecidableEq κ] in
theorem get_bind {β : Type} {b : β} {m : EnumerableMap κ ν} {k : κ} {f : ν → Res β} :
    (get m k >>= f) = .ok b ↔ ∃ v, m k = some v ∧ f v = .ok b := by
  unfold get
  cases m k with
  | none => exact ⟨nofun, nofun⟩
  | some v => simp [ok_bind]

end EnumerableMap

namespace Controller

/-! ## State and calls -/

inductive AddressType where
  | UNKNOWN
  | GOVERNANCE
deriving DecidableEq, Repr

/-- 48 hours -/
def TIME_LOCK : ℕ := 48 * 3600

structure State where
  initialized : Bool
  governance : Address
  addressTimeLocks : EnumerableMap AddressType ℕ
  addressAnnounces : EnumerableMap AddressType Address
  proxyTimeLocks : EnumerableMap Address ℕ
  proxyAnnounces : Address → Address

/-- a controller that was just deployed behind its proxy -/
def deploy : State := ⟨false, 0, fun _ => none, fun _ => none, fun _ => none, fun _ => 0⟩

/-- the block, the sender, and what each proxy answers to `upgrade(implementation)` -/
structure Env where
  timestamp : ℕ
  sender : Address
  upgrade : Address → Address → Res Unit
  sender_ne : sender ≠ 0

/-- a call of `upgrade(implementation)` on a proxy -/
structure Upgrade where
  proxy : Address
  implementation : Address
deriving DecidableEq

inductive Call where
  | init (governance : Address)
  | announceAddressChange (type : AddressType) (value : Address)
  | changeAddress (type : AddressType)
  | removeAddressAnnounce (type : AddressType)
  | announceProxyUpgrade (proxies implementations : List Address)
  | upgradeProxy (proxies : List Address)
  | removeProxyAnnounce (proxy : Address)
deriving DecidableEq

structure Tx where
  env : Env
  call : Call

/-! ## Functions -/

def init (s : State) (governance : Address) : Res State := do
  require (s.initialized = false) "Initializable: contract is already initialized"
  require (governance ≠ 0) "WRONG_INPUT"
  pure { s with initialized := true, governance }

def onlyGovernance (s : State) (env : Env) : Res Unit := require (env.sender = s.governance) "DENIED"

def announceAddressChange (s : State) (env : Env) (type : AddressType) (value : Address) : Res State := do
  onlyGovernance s env
  require (value ≠ 0) "ZERO_VALUE"
  let announces := s.addressAnnounces.set type value
  require announces.2 "ANNOUNCED"
  let timeLock ← uadd env.timestamp TIME_LOCK
  pure { s with addressAnnounces := announces.1, addressTimeLocks := (s.addressTimeLocks.set type timeLock).1 }

def changeAddress (s : State) (env : Env) (type : AddressType) : Res State := do
  onlyGovernance s env
  let newAddress ← s.addressAnnounces.get type
  let timeLock ← s.addressTimeLocks.get type
  match type with
  | .UNKNOWN => .error (.error "UNKNOWN")
  | .GOVERNANCE =>
    let oldAddress := s.governance
    -- no lock for the first address
    if oldAddress ≠ 0 then require (timeLock < env.timestamp) "LOCKED"
    pure { s with
      governance := newAddress
      addressAnnounces := s.addressAnnounces.remove type
      addressTimeLocks := s.addressTimeLocks.remove type }

def removeAddressAnnounce (s : State) (env : Env) (type : AddressType) : Res State := do
  onlyGovernance s env
  pure { s with
    addressAnnounces := s.addressAnnounces.remove type
    addressTimeLocks := s.addressTimeLocks.remove type }

/-- the entries of one proxy set -/
def State.announce (s : State) (proxy implementation : Address) (timeLock : ℕ) : State :=
  { s with
    proxyTimeLocks := (s.proxyTimeLocks.set proxy timeLock).1
    proxyAnnounces := Function.update s.proxyAnnounces proxy implementation }

/-- the entries of one proxy removed -/
def State.forget (s : State) (proxy : Address) : State :=
  { s with proxyTimeLocks := s.proxyTimeLocks.remove proxy, proxyAnnounces := Function.update s.proxyAnnounces proxy 0 }

/-- the loop of `announceProxyUpgrade` over the two arrays -/
def announceProxies (env : Env) (s : State) : List (Address × Address) → Res State
  | [] => .ok s
  | (proxy, implementation) :: rest => do
    require (implementation ≠ 0) "ZERO_IMPL"
    let timeLock ← uadd env.timestamp TIME_LOCK
    require (s.proxyTimeLocks.set proxy timeLock).2 "ANNOUNCED"
    announceProxies env (s.announce proxy implementation timeLock) rest

def announceProxyUpgrade (s : State) (env : Env) (proxies implementations : List Address) : Res State := do
  onlyGovernance s env
  require (proxies.length = implementations.length) "WRONG_INPUT"
  announceProxies env s (proxies.zip implementations)

/-- the loop of `upgradeProxy`, with the calls it makes -/
def upgradeProxies (env : Env) (s : State) : List Address → Res (State × List Upgrade)
  | [] => .ok (s, [])
  | proxy :: rest => do
    let timeLock ← s.proxyTimeLocks.get proxy
    let implementation := s.proxyAnnounces proxy
    require (timeLock < env.timestamp) "LOCKED"
    env.upgrade proxy implementation
    let (s, upgrades) ← upgradeProxies env (s.forget proxy) rest
    pure (s, ⟨proxy, implementation⟩ :: upgrades)

def upgradeProxy (s : State) (env : Env) (proxies : List Address) : Res (State × List Upgrade) := do
  onlyGovernance s env
  upgradeProxies env s proxies

def removeProxyAnnounce (s : State) (env : Env) (proxy : Address) : Res State := do
  onlyGovernance s env
  pure (s.forget proxy)

/-- a call: the state it leaves and the upgrades it made -/
def exec (s : State) (tx : Tx) : Res (State × List Upgrade) :=
  match tx.call with
  | .init governance => do pure (← init s governance, [])
  | .announceAddressChange type value => do pure (← announceAddressChange s tx.env type value, [])
  | .changeAddress type => do pure (← changeAddress s tx.env type, [])
  | .removeAddressAnnounce type => do pure (← removeAddressAnnounce s tx.env type, [])
  | .announceProxyUpgrade proxies implementations => do
    pure (← announceProxyUpgrade s tx.env proxies implementations, [])
  | .upgradeProxy proxies => upgradeProxy s tx.env proxies
  | .removeProxyAnnounce proxy => do pure (← removeProxyAnnounce s tx.env proxy, [])

/-- the state a call leaves -/
def step (s : State) (tx : Tx) : Res State := do pure (← exec s tx).1

/-! ## Announcements -/

/-- what an announcement is about -/
inductive Subject where
  | address (type : AddressType)
  | proxy (proxy : Address)
deriving DecidableEq

structure Announcement where
  value : Address
  timeLockAt : ℕ
deriving DecidableEq

/-- the pending announcement about a subject, if there is one -/
def State.announced (s : State) : Subject → Option Announcement
  | .address type => (s.addressAnnounces type).bind fun value => (s.addressTimeLocks type).map (⟨value, ·⟩)
  | .proxy proxy => (s.proxyTimeLocks proxy).map (⟨s.proxyAnnounces proxy, ·⟩)

/-- the call announces the value for the subject -/
def Call.Announces : Call → Subject → Address → Prop
  | .announceAddressChange type value, .address type', value' => type = type' ∧ value = value'
  | .announceProxyUpgrade proxies implementations, .proxy proxy, value => (proxy, value) ∈ proxies.zip implementations
  | _, _, _ => False

/-- the call carries out the announcement about the subject, or removes it -/
def Call.Clears : Call → Subject → Prop
  | .changeAddress type, .address type' => type = type'
  | .removeAddressAnnounce type, .address type' => type = type'
  | .upgradeProxy proxies, .proxy proxy => proxy ∈ proxies
  | .removeProxyAnnounce proxy, .proxy proxy' => proxy = proxy'
  | _, _ => False

/-- what a call at `time` does to the announcement about `x` -/
structure Follows (call : Call) (time : ℕ) (x : Subject) (s s' : State) : Prop where
  /-- an announcement is a new one, locked for 48 hours -/
  announces : ∀ v, call.Announces x v → s.announced x = none ∧ s'.announced x = some ⟨v, time + TIME_LOCK⟩
  clears : call.Clears x → s'.announced x = none
  keeps : (∀ v, ¬ call.Announces x v) → ¬ call.Clears x → s'.announced x = s.announced x

/-- the announcement about `x` was pending when it was carried out with `value`, and its lock had ended before `time` -/
def Due (s : State) (x : Subject) (value : Address) (time : ℕ) : Prop :=
  ∃ lock, s.announced x = some ⟨value, lock⟩ ∧ lock < time

variable {s s' : State} {env : Env} {tx : Tx} {x : Subject} {upgrades : List Upgrade}

@[simp] theorem announced_forget (s : State) (proxy : Address) (x : Subject) :
    (s.forget proxy).announced x = if x = .proxy proxy then none else s.announced x := by
  cases x with
  | address type => simp [State.announced, State.forget]
  | proxy p =>
    by_cases h : p = proxy
    · simp [State.announced, State.forget, EnumerableMap.remove, h]
    · simp [State.announced, State.forget, EnumerableMap.remove, h]

@[simp] theorem announced_announce (s : State) (proxy implementation : Address) (timeLock : ℕ) (x : Subject) :
    (s.announce proxy implementation timeLock).announced x =
      if x = .proxy proxy then some ⟨implementation, timeLock⟩ else s.announced x := by
  cases x with
  | address type => simp [State.announced, State.announce]
  | proxy p =>
    by_cases h : p = proxy
    · simp [State.announced, State.announce, h]
    · simp [State.announced, State.announce, h]

theorem onlyGovernance_bind {β : Type} {b : β} {f : Unit → Res β} :
    (onlyGovernance s env >>= f) = .ok b ↔ env.sender = s.governance ∧ f () = .ok b := require_bind

/-! ## What each call does -/

theorem announceAddressChange_follows {type : AddressType} {value : Address}
    (h : announceAddressChange s env type value = .ok s') :
    Follows (.announceAddressChange type value) env.timestamp x s s' := by
  simp only [announceAddressChange, onlyGovernance_bind, require_bind, uadd_bind, pure_ok] at h
  obtain ⟨-, -, hnew, -, rfl⟩ := h
  rw [EnumerableMap.set_snd] at hnew
  refine ⟨?_, fun hx => hx.elim, ?_⟩
  · intro v hv
    cases x with
    | proxy p => exact hv.elim
    | address type' =>
      obtain ⟨rfl, rfl⟩ := hv
      exact ⟨by simp [State.announced, hnew], by simp [State.announced]⟩
  · intro hv _
    cases x with
    | proxy p => rfl
    | address type' =>
      have hne : type' ≠ type := fun e => hv value ⟨e.symm, rfl⟩
      simp [State.announced, hne]

theorem changeAddress_due {type : AddressType} (h : changeAddress s env type = .ok s') :
    type = .GOVERNANCE ∧ Due s (.address type) s'.governance env.timestamp ∧
      Follows (.changeAddress type) env.timestamp x s s' := by
  simp only [changeAddress, onlyGovernance_bind, EnumerableMap.get_bind] at h
  obtain ⟨hsender, newAddress, hannounced, timeLock, hlock, h⟩ := h
  cases type with
  | UNKNOWN => cases h
  | GOVERNANCE =>
    -- the governance that calls is not the zero address, so the lock is not skipped
    simp only [if_pos (show s.governance ≠ 0 from hsender ▸ env.sender_ne), require_bind, pure_ok] at h
    obtain ⟨hlt, rfl⟩ := h
    refine ⟨rfl, ⟨timeLock, by simp [State.announced, hannounced, hlock], hlt⟩, fun _ hv => hv.elim, ?_, ?_⟩
    · intro hx
      cases x with
      | proxy p => exact hx.elim
      | address type' =>
        obtain rfl : AddressType.GOVERNANCE = type' := hx
        simp [State.announced, EnumerableMap.remove]
    · intro _ hx
      cases x with
      | proxy p => rfl
      | address type' =>
        have hne : type' ≠ .GOVERNANCE := fun e => hx e.symm
        simp [State.announced, EnumerableMap.remove, hne]

theorem removeAddressAnnounce_follows {type : AddressType} (h : removeAddressAnnounce s env type = .ok s') :
    Follows (.removeAddressAnnounce type) env.timestamp x s s' := by
  simp only [removeAddressAnnounce, onlyGovernance_bind, pure_ok] at h
  obtain ⟨-, rfl⟩ := h
  refine ⟨fun _ hv => hv.elim, ?_, ?_⟩
  · intro hx
    cases x with
    | proxy p => exact hx.elim
    | address type' =>
      obtain rfl : type = type' := hx
      simp [State.announced, EnumerableMap.remove]
  · intro _ hx
    cases x with
    | proxy p => rfl
    | address type' =>
      have hne : type' ≠ type := fun e => hx e.symm
      simp [State.announced, EnumerableMap.remove, hne]

theorem removeProxyAnnounce_follows {proxy : Address} (h : removeProxyAnnounce s env proxy = .ok s') :
    Follows (.removeProxyAnnounce proxy) env.timestamp x s s' := by
  simp only [removeProxyAnnounce, onlyGovernance_bind, pure_ok] at h
  obtain ⟨-, rfl⟩ := h
  refine ⟨fun _ hv => hv.elim, ?_, ?_⟩
  · intro hx
    cases x with
    | address type => exact hx.elim
    | proxy p =>
      obtain rfl : proxy = p := hx
      simp
  · intro _ hx
    have hne : x ≠ .proxy proxy := fun e => hx (by subst e; rfl)
    simp [hne]

/-- the loop announces every pair, none of which was pending, and no other -/
theorem announceProxies_announced {l : List (Address × Address)} (h : announceProxies env s l = .ok s') :
    (∀ p v, (p, v) ∈ l → s.announced (.proxy p) = none ∧
      s'.announced (.proxy p) = some ⟨v, env.timestamp + TIME_LOCK⟩) ∧
    ∀ x, (∀ p v, (p, v) ∈ l → x ≠ .proxy p) → s'.announced x = s.announced x := by
  induction l generalizing s with
  | nil =>
    obtain rfl : s = s' := by simpa [announceProxies] using h
    exact ⟨nofun, fun _ _ => rfl⟩
  | cons a rest ih =>
    obtain ⟨proxy, implementation⟩ := a
    simp only [announceProxies, require_bind, uadd_bind] at h
    obtain ⟨-, -, hnew, h⟩ := h
    rw [EnumerableMap.set_snd] at hnew
    obtain ⟨hnews, hold⟩ := ih h
    have hfirst : (s.announce proxy implementation (env.timestamp + TIME_LOCK)).announced (.proxy proxy) =
        some ⟨implementation, env.timestamp + TIME_LOCK⟩ := by simp
    -- a proxy of the rest is another one, since it is not pending after the first round
    have hrest : ∀ p v, (p, v) ∈ rest → Subject.proxy p ≠ .proxy proxy := by
      intro p v hm e
      have hnone := (hnews p v hm).1
      rw [e, hfirst] at hnone
      exact nomatch hnone
    constructor
    · intro p v hm
      rcases List.mem_cons.1 hm with heq | hm
      · obtain ⟨rfl, rfl⟩ := Prod.mk.inj heq
        exact ⟨by simp [State.announced, hnew], (hold _ fun p v hm => (hrest p v hm).symm).trans hfirst⟩
      · obtain ⟨hnone, hsome⟩ := hnews p v hm
        rw [announced_announce, if_neg (hrest p v hm)] at hnone
        exact ⟨hnone, hsome⟩
    · intro x hx
      rw [hold x fun p v hm => hx p v (List.mem_cons_of_mem _ hm), announced_announce,
        if_neg (hx proxy implementation List.mem_cons_self)]

theorem announceProxyUpgrade_follows {proxies implementations : List Address}
    (h : announceProxyUpgrade s env proxies implementations = .ok s') :
    Follows (.announceProxyUpgrade proxies implementations) env.timestamp x s s' := by
  simp only [announceProxyUpgrade, onlyGovernance_bind, require_bind] at h
  obtain ⟨-, -, h⟩ := h
  obtain ⟨hnew, hold⟩ := announceProxies_announced h
  refine ⟨?_, nofun, ?_⟩
  · intro v hv
    cases x with
    | address type => exact hv.elim
    | proxy p => exact hnew p v hv
  · intro hv _
    refine hold x ?_
    rintro p v hm rfl
    exact hv v hm

/-- the loop carries out what is due, each proxy once, and forgets it -/
theorem upgradeProxies_due {proxies : List Address} (h : upgradeProxies env s proxies = .ok (s', upgrades)) :
    upgrades.map (·.proxy) = proxies ∧ proxies.Nodup ∧
      (∀ u ∈ upgrades, Due s (.proxy u.proxy) u.implementation env.timestamp) ∧
      ∀ x, s'.announced x = if ∃ p ∈ proxies, x = .proxy p then none else s.announced x := by
  induction proxies generalizing s upgrades with
  | nil =>
    obtain ⟨rfl, rfl⟩ : s = s' ∧ [] = upgrades := by simpa [upgradeProxies] using h
    exact ⟨rfl, List.nodup_nil, nofun, fun x => by simp⟩
  | cons proxy rest ih =>
    simp only [upgradeProxies, EnumerableMap.get_bind, require_bind] at h
    obtain ⟨lock, hlock, hlt, h⟩ := h
    obtain ⟨-, -, h⟩ := bind_ok.1 h
    obtain ⟨⟨s₁, later⟩, hrest, h⟩ := bind_ok.1 h
    obtain ⟨rfl, rfl⟩ := Prod.mk.inj (pure_ok.1 h)
    obtain ⟨hproxies, hnodup, hdue, hleft⟩ := ih hrest
    -- what is due after the first round is about another proxy, and was due before it
    have hbefore : ∀ u ∈ later, u.proxy ≠ proxy ∧ Due s (.proxy u.proxy) u.implementation env.timestamp := by
      intro u hu
      obtain ⟨l, hl, hlt'⟩ := hdue u hu
      rw [announced_forget] at hl
      split_ifs at hl with hp
      exact ⟨fun e => hp (by rw [e]), l, hl, hlt'⟩
    refine ⟨by rw [List.map_cons, hproxies], List.nodup_cons.2 ⟨?_, hnodup⟩, ?_, ?_⟩
    · rw [← hproxies, List.mem_map]
      rintro ⟨u, hu, e⟩
      exact (hbefore u hu).1 e
    · intro u hu
      rcases List.mem_cons.1 hu with rfl | hu
      · exact ⟨lock, by simp [State.announced, hlock], hlt⟩
      · exact (hbefore u hu).2
    · intro x
      rw [hleft, announced_forget]
      by_cases hx : x = .proxy proxy
      · simp [hx]
      · simp [hx]

theorem upgradeProxy_due {proxies : List Address} (h : upgradeProxy s env proxies = .ok (s', upgrades)) :
    upgrades.map (·.proxy) = proxies ∧ proxies.Nodup ∧
      (∀ u ∈ upgrades, Due s (.proxy u.proxy) u.implementation env.timestamp) ∧
      Follows (.upgradeProxy proxies) env.timestamp x s s' := by
  simp only [upgradeProxy, onlyGovernance_bind] at h
  obtain ⟨hproxies, hnodup, hdue, hleft⟩ := upgradeProxies_due h.2
  refine ⟨hproxies, hnodup, hdue, nofun, ?_, ?_⟩
  · intro hx
    cases x with
    | address type => exact hx.elim
    | proxy p =>
      have hp : p ∈ proxies := hx
      simp [hleft, hp]
  · intro _ hx
    rw [hleft, if_neg]
    rintro ⟨p, hp, rfl⟩
    exact hx hp

theorem init_follows {governance : Address} (h : init s governance = .ok s') :
    Follows (.init governance) env.timestamp x s s' := by
  simp only [init, require_bind, pure_ok] at h
  obtain ⟨-, -, rfl⟩ := h
  exact ⟨fun _ hv => hv.elim, fun hx => hx.elim, fun _ _ => rfl⟩

/-- what a call does to the announcements, and that the upgrades it makes are due -/
theorem exec_ok (h : exec s tx = .ok (s', upgrades)) :
    (∀ x, Follows tx.call tx.env.timestamp x s s') ∧
      ∀ u ∈ upgrades, Due s (.proxy u.proxy) u.implementation tx.env.timestamp := by
  obtain ⟨env, call⟩ := tx
  cases call with
  | upgradeProxy proxies =>
    have hdue := fun x => upgradeProxy_due (x := x) h
    exact ⟨fun x => (hdue x).2.2.2, (hdue (.proxy 0)).2.2.1⟩
  | init governance =>
    obtain ⟨_, hs, h⟩ := bind_ok.1 h
    obtain ⟨rfl, rfl⟩ := Prod.mk.inj (pure_ok.1 h)
    exact ⟨fun x => init_follows hs, nofun⟩
  | announceAddressChange type value =>
    obtain ⟨_, hs, h⟩ := bind_ok.1 h
    obtain ⟨rfl, rfl⟩ := Prod.mk.inj (pure_ok.1 h)
    exact ⟨fun x => announceAddressChange_follows hs, nofun⟩
  | changeAddress type =>
    obtain ⟨_, hs, h⟩ := bind_ok.1 h
    obtain ⟨rfl, rfl⟩ := Prod.mk.inj (pure_ok.1 h)
    exact ⟨fun x => (changeAddress_due hs).2.2, nofun⟩
  | removeAddressAnnounce type =>
    obtain ⟨_, hs, h⟩ := bind_ok.1 h
    obtain ⟨rfl, rfl⟩ := Prod.mk.inj (pure_ok.1 h)
    exact ⟨fun x => removeAddressAnnounce_follows hs, nofun⟩
  | announceProxyUpgrade proxies implementations =>
    obtain ⟨_, hs, h⟩ := bind_ok.1 h
    obtain ⟨rfl, rfl⟩ := Prod.mk.inj (pure_ok.1 h)
    exact ⟨fun x => announceProxyUpgrade_follows hs, nofun⟩
  | removeProxyAnnounce proxy =>
    obtain ⟨_, hs, h⟩ := bind_ok.1 h
    obtain ⟨rfl, rfl⟩ := Prod.mk.inj (pure_ok.1 h)
    exact ⟨fun x => removeProxyAnnounce_follows hs, nofun⟩

/-! ## Histories -/

/-- call number `j` of the history is `tx`, and it goes through -/
def Made (txs : List Tx) (j : ℕ) (tx : Tx) : Prop :=
  txs[j]? = some tx ∧ Succeeds (step (run step deploy (txs.take j)) tx)

/-- in the history, the value was announced for `x` more than 48 hours before `time`, and since then the announcement
was neither removed nor carried out -/
def Announced (txs : List Tx) (x : Subject) (value : Address) (time : ℕ) : Prop :=
  ∃ j tx, Made txs j tx ∧ tx.call.Announces x value ∧ tx.env.timestamp + TIME_LOCK < time ∧
    ∀ i tx', j < i → Made txs i tx' → ¬ tx'.call.Clears x

theorem step_ok : step s tx = .ok s' ↔ ∃ upgrades, exec s tx = .ok (s', upgrades) := by
  simp only [step, bind_ok, pure_ok, Prod.exists]
  constructor
  · rintro ⟨_, upgrades, h, rfl⟩
    exact ⟨upgrades, h⟩
  · rintro ⟨upgrades, h⟩
    exact ⟨s', upgrades, h, rfl⟩

/-- what is pending after a call was announced by it, or was pending before and not cleared by it -/
theorem announced_step {a : Announcement} (h : step s tx = .ok s') (ha : s'.announced x = some a) :
    (tx.call.Announces x a.value ∧ a.timeLockAt = tx.env.timestamp + TIME_LOCK) ∨
      s.announced x = some a ∧ ¬ tx.call.Clears x := by
  obtain ⟨upgrades, h⟩ := step_ok.1 h
  have hx := (exec_ok h).1 x
  by_cases hann : ∃ v, tx.call.Announces x v
  · obtain ⟨v, hv⟩ := hann
    have hnew := (hx.announces v hv).2
    rw [ha] at hnew
    obtain rfl := Option.some.inj hnew
    exact .inl ⟨hv, rfl⟩
  · have hclears : ¬ tx.call.Clears x := by
      intro hc
      rw [hx.clears hc] at ha
      exact nomatch ha
    rw [hx.keeps (fun v hv => hann ⟨v, hv⟩) hclears] at ha
    exact .inr ⟨ha, hclears⟩

/-- what is due after a history was announced in it -/
theorem due_announced {txs : List Tx} {value : Address} {time : ℕ} (h : Due (run step deploy txs) x value time) :
    Announced txs x value time := by
  obtain ⟨lock, hpending, hlt⟩ := h
  have hdeploy : deploy.announced x ≠ some ⟨value, lock⟩ := by
    cases x <;> exact nofun
  obtain ⟨j, tx, hj, ⟨hann, hlock⟩, hok, hsince⟩ :=
    run_issued (fun (s : State) (a : Announcement) => s.announced x = some a)
      (fun (tx : Tx) a => tx.call.Announces x a.value ∧ a.timeLockAt = tx.env.timestamp + TIME_LOCK)
      (fun (tx : Tx) _ => tx.call.Clears x) hdeploy (fun _ _ _ => announced_step) txs hpending
  exact ⟨j, tx, ⟨hj, hok⟩, hann, hlock ▸ hlt, fun i tx' hi hmade => hsince i tx' hi hmade.1 hmade.2⟩

/-! ## Main result -/

/-- **The time lock.** A call that goes through after any history: a change of address, and every upgrade the call makes,
applies exactly what was announced for that type or proxy more than 48 hours before and neither removed nor carried out
since. `upgradeProxy` upgrades the proxies of its list, each once. What is pending can not be announced again: it stays
as it is until a call clears it. -/
theorem time_lock (txs : List Tx) {tx : Tx} {s' : State} {upgrades : List Upgrade}
    (h : exec (run step deploy txs) tx = .ok (s', upgrades)) :
    (∀ type, tx.call = .changeAddress type → Announced txs (.address type) s'.governance tx.env.timestamp) ∧
    (∀ u ∈ upgrades, Announced txs (.proxy u.proxy) u.implementation tx.env.timestamp) ∧
    (∀ proxies, tx.call = .upgradeProxy proxies → upgrades.map (·.proxy) = proxies ∧ proxies.Nodup) ∧
    ∀ x a, (run step deploy txs).announced x = some a →
      (∀ v, ¬ tx.call.Announces x v) ∧ (¬ tx.call.Clears x → s'.announced x = some a) ∧
        (tx.call.Clears x → s'.announced x = none) := by
  obtain ⟨hfollows, hdue⟩ := exec_ok h
  refine ⟨?_, fun u hu => due_announced (hdue u hu), ?_, ?_⟩
  · intro type hcall
    obtain ⟨env, call⟩ := tx
    obtain rfl : call = .changeAddress type := hcall
    obtain ⟨_, hs, h⟩ := bind_ok.1 h
    obtain ⟨rfl, rfl⟩ := Prod.mk.inj (pure_ok.1 h)
    obtain ⟨rfl, hd, -⟩ := changeAddress_due (x := .address type) hs
    exact due_announced hd
  · intro proxies hcall
    obtain ⟨env, call⟩ := tx
    obtain rfl : call = .upgradeProxy proxies := hcall
    obtain ⟨hproxies, hnodup, -⟩ := upgradeProxy_due (x := .proxy 0) h
    exact ⟨hproxies, hnodup⟩
  · intro x a ha
    have hnone : ∀ v, ¬ tx.call.Announces x v := by
      intro v hv
      rw [((hfollows x).announces v hv).1] at ha
      exact nomatch ha
    exact ⟨hnone, fun hc => ((hfollows x).keeps hnone hc).trans ha, (hfollows x).clears⟩

/-- a call by account 5, at a time when every proxy accepts upgrades -/
def byFive (timestamp : ℕ) (call : Call) : Tx := ⟨⟨timestamp, 5, fun _ _ => .ok (), by decide⟩, call⟩

/-- account 5 announces account 6 as its successor and implementation 8 for proxy 7 -/
def twoAnnounced : List Tx :=
  [byFive 0 (.init 5), byFive 10 (.announceAddressChange .GOVERNANCE 6), byFive 10 (.announceProxyUpgrade [7] [8])]

/-- 48 hours and a second later either can be carried out -/
theorem time_lock_twoAnnounced :
    (∃ s' upgrades, exec (run step deploy twoAnnounced) (byFive 172811 (.upgradeProxy [7])) = .ok (s', upgrades) ∧
      ∀ u ∈ upgrades, Announced twoAnnounced (.proxy u.proxy) u.implementation 172811) ∧
    ∃ s' upgrades, exec (run step deploy twoAnnounced) (byFive 172811 (.changeAddress .GOVERNANCE)) =
      .ok (s', upgrades) ∧ Announced twoAnnounced (.address .GOVERNANCE) s'.governance 172811 := by
  constructor
  · obtain ⟨⟨s', upgrades⟩, h⟩ : ∃ r, exec (run step deploy twoAnnounced) (byFive 172811 (.upgradeProxy [7])) = .ok r :=
      Res.failure_none (by decide)
    exact ⟨s', upgrades, h, (time_lock twoAnnounced h).2.1⟩
  · obtain ⟨⟨s', upgrades⟩, h⟩ : ∃ r, exec (run step deploy twoAnnounced)
        (byFive 172811 (.changeAddress .GOVERNANCE)) = .ok r :=
      Res.failure_none (by decide)
    exact ⟨s', upgrades, h, (time_lock twoAnnounced h).1 .GOVERNANCE rfl⟩

end Controller

end SimContracts
