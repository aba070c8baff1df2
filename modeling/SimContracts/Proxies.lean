/-
Proxies and their controller (`contracts/ProxyControlled.sol`, `dependencies/UpgradeableProxy.sol`,
`dependencies/ControllableV3.sol`): `Ve`, the distributors and the controller itself each lie behind a proxy whose code the
controller can change. The controller is that of `Controller`; here its calls of `upgrade` reach the proxies.

A proxy is its slots. Its own functions are `initProxy` and `upgrade`; every other call is delegated to its implementation,
which is a contract of this repository, so that `isController`, `increaseRevision` and `init` are those of `ControllableV3`. A
proxy without an implementation delegates to no code: such a call has no effect, and one that needs a result reverts. What
other contracts answer is part of the transaction; an account that makes a transaction is no proxy. The controller's own proxy
has its first implementation, as the deployment sets it.

Results:
  upgrades_time_locked   an implementation, the revision and the previous implementation change only together, by the
                         controller's governance, to what was announced more than 48 hours before
  revision_identifies    over every run the revision never falls and tells the implementation, and who controls a proxy and
                         when it was created never change
-/
import SimContracts.Controller

namespace SimContracts.Proxies

open Solidity
open Controller (Upgrade)

/-! ## State and calls -/

/-- the slots of a proxy -/
structure Proxy where
  implementation : Address
  initialized : Bool
  controller : Address
  created : ℕ
  createdBlock : ℕ
  revision : ℕ
  previousImplementation : Address
deriving DecidableEq

/-- a proxy that was just deployed -/
def Proxy.deploy : Proxy := ⟨0, false, 0, 0, 0, 0, 0⟩

/-- where the proxies are, the controller's one among them, and the controller's first implementation -/
structure Config where
  isProxy : Address → Bool
  controller : Address
  controller_isProxy : isProxy controller = true
  logic : Address

structure State where
  controller : Controller.State
  proxies : Address → Proxy

def init (c : Config) : State :=
  ⟨Controller.deploy, Function.update (fun _ => Proxy.deploy) c.controller { Proxy.deploy with implementation := c.logic }⟩

/-- the block, the sender, and what other contracts answer -/
structure Env (c : Config) where
  timestamp : ℕ
  number : ℕ
  sender : Address
  isContract : Address → Bool
  /-- `supportsInterface(I_CONTROLLABLE)` -/
  supportsControllable : Address → Res Bool
  /-- whether there is code that supports `I_CONTROLLER` -/
  supportsController : Address → Bool
  /-- `governance` of another controller -/
  governance : Address → Res Address
  /-- `upgrade` of a contract that is no proxy -/
  upgrade : Address → Address → Res Unit
  sender_ne : sender ≠ 0
  sender_outside : c.isProxy sender = false
  zero_noCode : isContract 0 = false

inductive Call where
  | initProxy (proxy logic : Address)
  | upgrade (proxy newImplementation : Address)
  | increaseRevision (proxy oldLogic : Address)
  /-- `init` of an implementation other than the controller, with what is left of it after `__Controllable_init` -/
  | init (proxy controller : Address) (rest : Res Unit)
  | controller (call : Controller.Call)

structure Tx (c : Config) where
  env : Env c
  call : Call

/-! ## Functions of a proxy -/

variable {c : Config}

def setImplementation (env : Env c) (x : Proxy) (newImplementation : Address) : Res Proxy := do
  require (env.isContract newImplementation = true) "UpgradeableProxy: new implementation is not a contract"
  pure { x with implementation := newImplementation }

def requireControllable (env : Env c) (logic : Address) : Res Unit := do
  let supported ← env.supportsControllable logic
  require (supported = true) "Proxy: Wrong implementation"

def initProxy (env : Env c) (x : Proxy) (logic : Address) : Res Proxy := do
  requireControllable env logic
  require (x.implementation = 0) "Already inited"
  setImplementation env x logic

/-- `isController`, which has no result without an implementation -/
def requireController (x : Proxy) (sender : Address) (reason : String) : Res Unit := do
  require (x.implementation ≠ 0) ""
  require (sender = x.controller) reason

/-- `increaseRevision` of the proxy at `address` -/
def increaseRevision (address sender : Address) (x : Proxy) (oldLogic : Address) : Res Proxy :=
  if x.implementation = 0 then pure x
  else do
    require (sender = address) "Increase revision forbidden"
    let r ← uadd x.revision 1
    pure { x with revision := r, previousImplementation := oldLogic }

/-- `upgrade` of the proxy at `address` -/
def upgrade (env : Env c) (address sender : Address) (x : Proxy) (newImplementation : Address) : Res Proxy := do
  requireControllable env newImplementation
  requireController x sender "Proxy: Forbidden"
  let x ← increaseRevision address address x x.implementation
  let x ← setImplementation env x newImplementation
  requireController x sender "Proxy: Wrong implementation"
  pure x

def controllableInit (env : Env c) (x : Proxy) (controller : Address) (governance : Res Address) : Res Proxy := do
  require (controller ≠ 0) "Zero controller"
  require (env.supportsController controller = true) "Interface is not supported"
  let governance ← governance
  require (governance ≠ 0) "Zero governance"
  pure { x with controller, created := env.timestamp, createdBlock := env.number }

/-- `init` of an implementation -/
def initLogic (env : Env c) (x : Proxy) (controller : Address) (governance : Res Address) (rest : Res Unit) : Res Proxy :=
  if x.implementation = 0 then pure x
  else do
    require (x.initialized = false) "Initializable: contract is already initialized"
    let x ← controllableInit env x controller governance
    rest
    pure { x with initialized := true }

/-! ## The system -/

/-- a call to a proxy: there must be one -/
def onProxy (s : State) (proxy : Address) (f : Proxy → Res Proxy) : Res State := do
  require (c.isProxy proxy = true) ""
  let x ← f (s.proxies proxy)
  pure { s with proxies := Function.update s.proxies proxy x }

/-- a call of `upgrade` by the controller -/
def callUpgrade (env : Env c) (proxies : Address → Proxy) (u : Upgrade) : Res (Address → Proxy) :=
  if c.isProxy u.proxy = true then do
    let x ← upgrade env u.proxy c.controller (proxies u.proxy) u.implementation
    pure (Function.update proxies u.proxy x)
  else do
    env.upgrade u.proxy u.implementation
    pure proxies

/-- `governance` of a controller, in the state of this one -/
def governanceOf (env : Env c) (controller : Controller.State) (address : Address) : Res Address :=
  if address = c.controller then .ok controller.governance else env.governance address

/-- a call to the controller. It upgrades no proxy twice, so each answers as in the state before the call -/
def callController (s : State) (env : Env c) (call : Controller.Call) : Res State := do
  let answer := fun proxy implementation => (callUpgrade env s.proxies ⟨proxy, implementation⟩).map fun _ => ()
  let (controller, upgrades) ← Controller.exec s.controller ⟨⟨env.timestamp, env.sender, answer, env.sender_ne⟩, call⟩
  let proxies ← upgrades.foldlM (callUpgrade env) s.proxies
  match call with
  | .init _ =>
    let x ← initLogic env (proxies c.controller) c.controller (.ok controller.governance) (.ok ())
    pure ⟨controller, Function.update proxies c.controller x⟩
  | _ => pure ⟨controller, proxies⟩

def exec (c : Config) (s : State) (tx : Tx c) : Res State :=
  match tx.call with
  | .initProxy proxy logic => onProxy (c := c) s proxy fun x => initProxy tx.env x logic
  | .upgrade proxy newImplementation => onProxy (c := c) s proxy fun x => upgrade tx.env proxy tx.env.sender x newImplementation
  | .increaseRevision proxy oldLogic => onProxy (c := c) s proxy fun x => increaseRevision proxy tx.env.sender x oldLogic
  | .init proxy controller rest => do
    require (proxy ≠ c.controller) ""
    onProxy (c := c) s proxy fun x => initLogic tx.env x controller (governanceOf tx.env s.controller controller) rest
  | .controller call => callController s tx.env call

/-! ## What a function does to its proxy -/

variable {env : Env c} {x x' : Proxy} {s s' : State} {p sender : Address} {tx : Tx c}

/-- the slots after an upgrade -/
def Proxy.upgraded (x : Proxy) (newImplementation : Address) : Proxy :=
  { x with implementation := newImplementation, revision := x.revision + 1, previousImplementation := x.implementation }

theorem setImplementation_ok {implementation : Address} (h : setImplementation env x implementation = .ok x') :
    implementation ≠ 0 ∧ x' = { x with implementation := implementation } := by
  simp only [setImplementation, require_bind, pure_ok] at h
  obtain ⟨hcode, rfl⟩ := h
  refine ⟨?_, rfl⟩
  rintro rfl
  simp [env.zero_noCode] at hcode

theorem initProxy_ok {logic : Address} (h : initProxy env x logic = .ok x') :
    x.implementation = 0 ∧ logic ≠ 0 ∧ x' = { x with implementation := logic } := by
  obtain ⟨-, -, h⟩ := bind_ok.1 h
  rw [require_bind] at h
  exact ⟨h.1, setImplementation_ok h.2⟩

theorem upgrade_ok {implementation : Address} (h : upgrade env p sender x implementation = .ok x') :
    x.implementation ≠ 0 ∧ sender = x.controller ∧ implementation ≠ 0 ∧ x' = x.upgraded implementation := by
  obtain ⟨-, -, h⟩ := bind_ok.1 h
  simp only [requireController, require_bind, bind_assoc] at h
  obtain ⟨hne, hsender, h⟩ := h
  simp only [increaseRevision, if_neg hne, require_bind, uadd_bind, pure_bind, bind_assoc] at h
  obtain ⟨-, -, h⟩ := h
  obtain ⟨x₁, h1, h⟩ := bind_ok.1 h
  obtain ⟨hcode, rfl⟩ := setImplementation_ok h1
  simp only [require_bind, pure_ok] at h
  exact ⟨hne, hsender, hcode, h.2.2.symm⟩

/-- from outside the revision can not be increased -/
theorem increaseRevision_outside {oldLogic : Address} (hsender : sender ≠ p)
    (h : increaseRevision p sender x oldLogic = .ok x') : x' = x := by
  unfold increaseRevision at h
  split_ifs at h with hzero
  · exact (pure_ok.1 h).symm
  · exact absurd (require_bind.1 h).1 hsender

/-- the slots after `init` -/
def Proxy.createdBy (x : Proxy) (env : Env c) (controller : Address) : Proxy :=
  { x with initialized := true, controller, created := env.timestamp, createdBlock := env.number }

theorem initLogic_ok {controller : Address} {governance : Res Address} {rest : Res Unit}
    (h : initLogic env x controller governance rest = .ok x') :
    x' = x ∨ x.initialized = false ∧ controller ≠ 0 ∧ x' = x.createdBy env controller := by
  unfold initLogic at h
  split_ifs at h with hzero
  · exact .inl (pure_ok.1 h).symm
  · rw [require_bind] at h
    obtain ⟨hinit, h⟩ := h
    obtain ⟨x₁, h1, h⟩ := bind_ok.1 h
    obtain ⟨-, -, h⟩ := bind_ok.1 h
    simp only [controllableInit, require_bind] at h1
    obtain ⟨hne, -, h1⟩ := h1
    obtain ⟨_, -, h2⟩ := bind_ok.1 h1
    obtain rfl := pure_ok.1 (require_bind.1 h2).2
    exact .inr ⟨hinit, hne, (pure_ok.1 h).symm⟩

/-! ## What a call does to a proxy -/

/-- what becomes of the proxy at `p` in a call -/
inductive ProxyStep (env : Env c) (call : Call) (s : State) (p : Address) : Proxy → Prop where
  | same : ProxyStep env call s p (s.proxies p)
  | placed (logic : Address) (hzero : (s.proxies p).implementation = 0) (hlogic : logic ≠ 0) :
      ProxyStep env call s p { s.proxies p with implementation := logic }
  | created (controller : Address) (hinit : (s.proxies p).initialized = false) (hcontroller : controller ≠ 0) :
      ProxyStep env call s p ((s.proxies p).createdBy env controller)
  /-- a direct call: the controller of the proxy is an account -/
  | upgradedBy (implementation : Address) (hne : (s.proxies p).implementation ≠ 0) (hnew : implementation ≠ 0)
      (hsender : env.sender = (s.proxies p).controller) : ProxyStep env call s p ((s.proxies p).upgraded implementation)
  | upgraded (implementation : Address) (hne : (s.proxies p).implementation ≠ 0) (hnew : implementation ≠ 0)
      (hcontroller : c.controller = (s.proxies p).controller) (proxies : List Address)
      (hcall : call = .controller (.upgradeProxy proxies)) (hmem : p ∈ proxies)
      (hgovernance : env.sender = s.controller.governance)
      (hdue : Controller.Due s.controller (.proxy p) implementation env.timestamp) :
      ProxyStep env call s p ((s.proxies p).upgraded implementation)

theorem onProxy_ok {proxy : Address} {f : Proxy → Res Proxy} (h : onProxy (c := c) s proxy f = .ok s') :
    c.isProxy proxy = true ∧ s'.controller = s.controller ∧ f (s.proxies proxy) = .ok (s'.proxies proxy) ∧
      ∀ p, p ≠ proxy → s'.proxies p = s.proxies p := by
  rw [onProxy, require_bind] at h
  obtain ⟨hproxy, h⟩ := h
  obtain ⟨x, hx, h⟩ := bind_ok.1 h
  obtain rfl := pure_ok.1 h
  exact ⟨hproxy, rfl, by simpa using hx, fun p hp => by simp [hp]⟩

theorem callUpgrade_ok {proxies proxies' : Address → Proxy} {u : Upgrade} (h : callUpgrade env proxies u = .ok proxies') :
    (∀ p, p ≠ u.proxy → proxies' p = proxies p) ∧ (proxies' u.proxy = proxies u.proxy ∨
      (proxies u.proxy).implementation ≠ 0 ∧ u.implementation ≠ 0 ∧ c.controller = (proxies u.proxy).controller ∧
        proxies' u.proxy = (proxies u.proxy).upgraded u.implementation) := by
  unfold callUpgrade at h
  split_ifs at h
  · obtain ⟨x, hx, h⟩ := bind_ok.1 h
    obtain rfl := pure_ok.1 h
    obtain ⟨hne, hcontroller, hnew, rfl⟩ := upgrade_ok hx
    exact ⟨fun p hp => by simp [hp], .inr ⟨hne, hnew, hcontroller, by simp⟩⟩
  · obtain ⟨-, -, h⟩ := bind_ok.1 h
    obtain rfl := pure_ok.1 h
    exact ⟨fun _ _ => rfl, .inl rfl⟩

/-- a list of upgrades of different proxies changes each of them at most once -/
theorem upgrades_ok {upgrades : List Upgrade} {proxies proxies' : Address → Proxy}
    (h : upgrades.foldlM (callUpgrade env) proxies = .ok proxies') (hnodup : (upgrades.map (·.proxy)).Nodup) (p : Address) :
    proxies' p = proxies p ∨ ∃ u ∈ upgrades, u.proxy = p ∧ (proxies p).implementation ≠ 0 ∧ u.implementation ≠ 0 ∧
      c.controller = (proxies p).controller ∧ proxies' p = (proxies p).upgraded u.implementation := by
  induction upgrades generalizing proxies with
  | nil => exact .inl (by rw [pure_ok.1 h])
  | cons u rest ih =>
    rw [List.foldlM_cons] at h
    obtain ⟨proxies₁, h1, h⟩ := bind_ok.1 h
    rw [List.map_cons, List.nodup_cons] at hnodup
    obtain ⟨hothers, hthis⟩ := callUpgrade_ok h1
    by_cases hp : p = u.proxy
    · subst hp
      -- the rest of the list leaves this proxy alone
      have hrest : proxies' u.proxy = proxies₁ u.proxy := by
        rcases ih h hnodup.2 with hsame | ⟨u', hu', heq, -⟩
        · exact hsame
        · exact absurd (List.mem_map.2 ⟨u', hu', heq⟩) hnodup.1
      rw [hrest]
      exact hthis.imp_right fun hup => ⟨u, List.mem_cons_self, rfl, hup⟩
    · rw [← hothers p hp]
      rcases ih h hnodup.2 with hsame | ⟨u', hu', hup⟩
      · exact .inl hsame
      · exact .inr ⟨u', List.mem_cons_of_mem _ hu', hup⟩

/-- the upgrades of a call are those of `upgradeProxy`, due, and of different proxies -/
theorem exec_upgrades {cs cs' : Controller.State} {ctx : Controller.Tx} {upgrades : List Upgrade}
    (h : Controller.exec cs ctx = .ok (cs', upgrades)) :
    (upgrades.map (·.proxy)).Nodup ∧ ∀ u ∈ upgrades, ctx.call = .upgradeProxy (upgrades.map (·.proxy)) ∧
      ctx.env.sender = cs.governance ∧ Controller.Due cs (.proxy u.proxy) u.implementation ctx.env.timestamp := by
  have hdue := (Controller.exec_ok h).2
  obtain ⟨env, call⟩ := ctx
  cases call with
  | upgradeProxy proxies =>
    obtain ⟨hproxies, hnodup, -⟩ := Controller.upgradeProxy_due (x := .proxy 0) h
    have hgovernance := (Controller.onlyGovernance_bind.1 h).1
    rw [hproxies]
    exact ⟨hnodup, fun u hu => ⟨rfl, hgovernance, hdue u hu⟩⟩
  | _ =>
    obtain ⟨_, -, h⟩ := bind_ok.1 h
    obtain ⟨-, rfl⟩ := Prod.mk.inj (pure_ok.1 h)
    exact ⟨List.nodup_nil, fun u hu => by cases hu⟩

theorem callController_ok {call : Controller.Call} (h : callController s env call = .ok s') : ∃ answer upgrades proxies,
    Controller.exec s.controller ⟨⟨env.timestamp, env.sender, answer, env.sender_ne⟩, call⟩ = .ok (s'.controller, upgrades) ∧
      upgrades.foldlM (callUpgrade env) s.proxies = .ok proxies ∧
      (s'.proxies = proxies ∨ ∃ governance x, call = .init governance ∧
        initLogic env (proxies c.controller) c.controller (.ok s'.controller.governance) (.ok ()) = .ok x ∧
        s'.proxies = Function.update proxies c.controller x) := by
  obtain ⟨⟨controller, upgrades⟩, hexec, h⟩ := bind_ok.1 h
  obtain ⟨proxies, hproxies, h⟩ := bind_ok.1 h
  cases call with
  | init governance =>
    obtain ⟨x, hx, h⟩ := bind_ok.1 h
    obtain rfl := pure_ok.1 h
    exact ⟨_, upgrades, proxies, hexec, hproxies, .inr ⟨governance, x, rfl, hx, rfl⟩⟩
  | _ =>
    obtain rfl := pure_ok.1 h
    exact ⟨_, upgrades, proxies, hexec, hproxies, .inl rfl⟩

/-- a function that may change the proxy it is called on, in one of the ways of a step -/
theorem onProxy_step {proxy : Address} {f : Proxy → Res Proxy} {call : Call} (h : onProxy (c := c) s proxy f = .ok s')
    (hf : ∀ x, c.isProxy proxy = true → f (s.proxies proxy) = .ok x → ProxyStep env call s proxy x) (p : Address) :
    ProxyStep env call s p (s'.proxies p) := by
  obtain ⟨hproxy, -, hx, hothers⟩ := onProxy_ok h
  by_cases hp : p = proxy
  · subst hp
    exact hf _ hproxy hx
  · rw [hothers p hp]
    exact .same

theorem initLogic_step {controller : Address} {governance : Res Address} {rest : Res Unit} {call : Call}
    (h : initLogic env (s.proxies p) controller governance rest = .ok x) : ProxyStep env call s p x := by
  rcases initLogic_ok h with rfl | ⟨hinit, hne, rfl⟩
  · exact .same
  · exact .created controller hinit hne

theorem callController_step {call : Controller.Call} (h : callController s env call = .ok s') (p : Address) :
    ProxyStep env (.controller call) s p (s'.proxies p) := by
  obtain ⟨answer, upgrades, proxies, hexec, hproxies, hs⟩ := callController_ok h
  obtain ⟨hnodup, hdue⟩ := exec_upgrades hexec
  have hup := upgrades_ok hproxies hnodup p
  rcases hs with hs | ⟨governance, x, rfl, hx, hs⟩
  · rw [hs]
    rcases hup with hsame | ⟨u, hu, rfl, hne, hnew, hcontroller, hup⟩
    · rw [hsame]
      exact .same
    · obtain ⟨hcall, hgovernance, hdue⟩ := hdue u hu
      rw [hup]
      exact .upgraded u.implementation hne hnew hcontroller _ (congrArg Call.controller hcall) (List.mem_map_of_mem hu)
        hgovernance hdue
  · -- `init` upgrades nothing
    have hkept : proxies = s.proxies := by
      cases upgrades with
      | nil => exact (pure_ok.1 hproxies).symm
      | cons u rest => exact Controller.Call.noConfusion (hdue u List.mem_cons_self).1
    rw [hkept] at hx hs
    rw [hs]
    by_cases hp : p = c.controller
    · subst hp
      rw [Function.update_self]
      exact initLogic_step hx
    · rw [Function.update_of_ne hp]
      exact .same

/-- **A step.** What a call does to each proxy -/
theorem exec_step (h : exec c s tx = .ok s') (p : Address) : ProxyStep tx.env tx.call s p (s'.proxies p) := by
  obtain ⟨env, call⟩ := tx
  cases call <;> dsimp only [exec] at h ⊢
  case initProxy proxy logic =>
    refine onProxy_step h (fun x _ hx => ?_) p
    obtain ⟨hzero, hlogic, rfl⟩ := initProxy_ok hx
    exact .placed logic hzero hlogic
  case upgrade proxy implementation =>
    refine onProxy_step h (fun x _ hx => ?_) p
    obtain ⟨hne, hsender, hnew, rfl⟩ := upgrade_ok hx
    exact .upgradedBy implementation hne hnew hsender
  case increaseRevision proxy oldLogic =>
    refine onProxy_step h (fun x hproxy hx => ?_) p
    have hsender : env.sender ≠ proxy := by
      rintro rfl
      exact Bool.noConfusion (hproxy.symm.trans env.sender_outside)
    rw [increaseRevision_outside hsender hx]
    exact .same
  case init proxy controller rest => exact onProxy_step (require_bind.1 h).2 (fun x _ hx => initLogic_step hx) p
  case controller call => exact callController_step h p

/-! ## Histories -/

/-- how a proxy develops: the revision never falls and tells the implementation, and what `init` wrote stays -/
structure Follows (x x' : Proxy) : Prop where
  revision : x.revision ≤ x'.revision
  placed : x.implementation ≠ 0 → x'.implementation ≠ 0
  implementation : x.implementation ≠ 0 → x'.revision = x.revision →
    x'.implementation = x.implementation ∧ x'.previousImplementation = x.previousImplementation
  upgraded : x.implementation ≠ 0 → x'.revision = x.revision + 1 → x'.previousImplementation = x.implementation
  created : x.initialized = true → x'.initialized = true ∧ x'.controller = x.controller ∧ x'.created = x.created ∧
    x'.createdBlock = x.createdBlock

theorem Follows.refl (x : Proxy) : Follows x x :=
  ⟨le_rfl, id, fun _ _ => ⟨rfl, rfl⟩, fun _ h => by omega, fun h => ⟨h, rfl, rfl, rfl⟩⟩

theorem Follows.trans {x₁ x₂ x₃ : Proxy} (h : Follows x₁ x₂) (h' : Follows x₂ x₃) : Follows x₁ x₃ := by
  have hle := h.revision
  have hle' := h'.revision
  refine ⟨hle.trans hle', fun hne => h'.placed (h.placed hne), fun hne heq => ?_, fun hne heq => ?_, fun hinit => ?_⟩
  · obtain ⟨h1, h2⟩ := h.implementation hne (by omega)
    obtain ⟨h3, h4⟩ := h'.implementation (h.placed hne) (by omega)
    exact ⟨h3.trans h1, h4.trans h2⟩
  · -- the one upgrade is in the first part or in the second
    rcases Nat.lt_or_ge x₁.revision x₂.revision with hlt | hge
    · rw [(h'.implementation (h.placed hne) (by omega)).2, h.upgraded hne (by omega)]
    · rw [h'.upgraded (h.placed hne) (by omega), (h.implementation hne (by omega)).1]
  · obtain ⟨h0, h1, h2, h3⟩ := h.created hinit
    obtain ⟨h0', h1', h2', h3'⟩ := h'.created h0
    exact ⟨h0', h1'.trans h1, h2'.trans h2, h3'.trans h3⟩

theorem Follows.of_upgraded {implementation : Address} (hnew : implementation ≠ 0) : Follows x (x.upgraded implementation) :=
  ⟨Nat.le_succ _, fun _ => hnew, fun _ h => absurd h (Nat.succ_ne_self _), fun _ _ => rfl, fun h => ⟨h, rfl, rfl, rfl⟩⟩

theorem ProxyStep.follows {call : Call} (h : ProxyStep env call s p x) : Follows (s.proxies p) x := by
  cases h with
  | same => exact .refl _
  | placed logic hzero hlogic =>
    exact ⟨le_rfl, fun _ => hlogic, fun hne => absurd hzero hne, fun hne => absurd hzero hne, fun h => ⟨h, rfl, rfl, rfl⟩⟩
  | created controller hinit =>
    refine ⟨le_rfl, id, fun _ _ => ⟨rfl, rfl⟩, fun _ h => absurd h.symm (Nat.succ_ne_self _), fun h => ?_⟩
    exact Bool.noConfusion (hinit.symm.trans h)
  | upgradedBy _ _ hnew => exact .of_upgraded hnew
  | upgraded _ _ hnew => exact .of_upgraded hnew

/-- a proxy that is not initialised has no controller -/
def Uncontrolled (s : State) : Prop := ∀ p, (s.proxies p).initialized = false → (s.proxies p).controller = 0

theorem exec_uncontrolled (hs : Uncontrolled s) (h : exec c s tx = .ok s') : Uncontrolled s' := by
  intro p hinit
  have hstep := exec_step h p
  generalize s'.proxies p = x at hstep hinit ⊢
  cases hstep with
  | created => exact Bool.noConfusion hinit
  | _ => exact hs p hinit

theorem reached_uncontrolled (c : Config) (txs : List (Tx c)) : Uncontrolled (run (exec c) (init c) txs) := by
  refine run_inv (exec c) (P := fun _ _ => True) (fun s tx s' hs _ h => exec_uncontrolled hs h) _ txs ?_ (along_true _ _ _)
  intro p _
  by_cases hp : p = c.controller
  · subst hp
    simp [init, Proxy.deploy]
  · simp [init, Proxy.deploy, hp]

def Call.Announces : Call → Address → Address → Prop
  | .controller call, p, implementation => call.Announces (.proxy p) implementation
  | _, _, _ => False

def Call.Clears : Call → Address → Prop
  | .controller call, p => call.Clears (.proxy p)
  | _, _ => False

/-- call number `j` of the history is `tx`, and it goes through -/
def Made (c : Config) (txs : List (Tx c)) (j : ℕ) (tx : Tx c) : Prop :=
  txs[j]? = some tx ∧ Succeeds (exec c (run (exec c) (init c) (txs.take j)) tx)

/-- in the history, the controller's governance announced the implementation for the proxy more than 48 hours before `time`,
and since then the announcement was neither removed nor carried out -/
def Announced (c : Config) (txs : List (Tx c)) (p implementation : Address) (time : ℕ) : Prop :=
  ∃ j tx, Made c txs j tx ∧ tx.call.Announces p implementation ∧
    tx.env.sender = (run (exec c) (init c) (txs.take j)).controller.governance ∧
    tx.env.timestamp + Controller.TIME_LOCK < time ∧ ∀ i tx', j < i → Made c txs i tx' → ¬ tx'.call.Clears p

/-- a call reaches the controller as one of its own, or leaves it alone -/
theorem exec_controller (h : exec c s tx = .ok s') :
    (∃ ctx : Controller.Tx, tx.call = .controller ctx.call ∧ ctx.env.timestamp = tx.env.timestamp ∧
      ctx.env.sender = tx.env.sender ∧ Controller.step s.controller ctx = .ok s'.controller) ∨
      (∀ call, tx.call ≠ .controller call) ∧ s'.controller = s.controller := by
  obtain ⟨env, call⟩ := tx
  cases call <;> dsimp only [exec] at h ⊢
  case controller call =>
    obtain ⟨answer, upgrades, proxies, hexec, -⟩ := callController_ok h
    exact .inl ⟨_, rfl, rfl, rfl, Controller.step_ok.2 ⟨upgrades, hexec⟩⟩
  case init proxy controller rest => exact .inr ⟨(fun _ hc => by cases hc), (onProxy_ok (require_bind.1 h).2).2.1⟩
  all_goals exact .inr ⟨(fun _ hc => by cases hc), (onProxy_ok h).2.1⟩

/-- only the governance announces an upgrade -/
theorem announces_governance {cs cs' : Controller.State} {ctx : Controller.Tx} {implementation : Address}
    (h : Controller.step cs ctx = .ok cs') (ha : ctx.call.Announces (.proxy p) implementation) :
    ctx.env.sender = cs.governance := by
  obtain ⟨upgrades, h⟩ := Controller.step_ok.1 h
  obtain ⟨env, call⟩ := ctx
  cases call with
  | announceProxyUpgrade proxies implementations =>
    obtain ⟨_, h, -⟩ := bind_ok.1 h
    exact (Controller.onlyGovernance_bind.1 h).1
  | _ => exact ha.elim

/-- what is due after a history was announced in it -/
theorem due_announced {txs : List (Tx c)} {implementation : Address} {time : ℕ}
    (h : Controller.Due (run (exec c) (init c) txs).controller (.proxy p) implementation time) :
    Announced c txs p implementation time := by
  obtain ⟨lock, hpending, hlt⟩ := h
  have hstep : ∀ (s : State) (tx : Tx c) (s' : State), exec c s tx = .ok s' →
      s'.controller.announced (.proxy p) = some ⟨implementation, lock⟩ →
      tx.call.Announces p implementation ∧ lock = tx.env.timestamp + Controller.TIME_LOCK ∨
        s.controller.announced (.proxy p) = some ⟨implementation, lock⟩ ∧ ¬ tx.call.Clears p := by
    intro s tx s' hexec ha
    rcases exec_controller hexec with ⟨ctx, hcall, htime, -, hctx⟩ | ⟨hcall, hsame⟩
    · rw [hcall, ← htime]
      exact Controller.announced_step hctx ha
    · refine .inr ⟨hsame ▸ ha, ?_⟩
      cases hc : tx.call with
      | controller call => exact absurd hc (hcall call)
      | _ => exact id
  obtain ⟨j, tx, hj, ⟨hann, hlock⟩, hok, hsince⟩ :=
    run_issued (fun (s : State) (a : Controller.Announcement) => s.controller.announced (.proxy p) = some a)
      (fun (tx : Tx c) a => tx.call.Announces p a.value ∧ a.timeLockAt = tx.env.timestamp + Controller.TIME_LOCK)
      (fun (tx : Tx c) _ => tx.call.Clears p) (x := ⟨implementation, lock⟩) (fun hc => by cases hc) hstep txs hpending
  refine ⟨j, tx, ⟨hj, hok⟩, hann, ?_, hlock ▸ hlt, fun i tx' hi hmade => hsince i tx' hi hmade.1 hmade.2⟩
  obtain ⟨s', hs'⟩ := hok
  rcases exec_controller hs' with ⟨ctx, hcall, -, hsender, hctx⟩ | ⟨hcall, -⟩
  · rw [hcall] at hann
    exact hsender.symm.trans (announces_governance hctx hann)
  · cases hc : tx.call with
    | controller call => exact absurd hc (hcall call)
    | _ =>
      rw [hc] at hann
      exact hann.elim

/-! ## Main results -/

/-- **Upgrades are time-locked.** A call that goes through after any history, and a proxy that has an implementation and whose
controller is this one or not set yet: its implementation, revision and previous implementation stay as they are, or the call
is `upgradeProxy` by the controller's governance, the new implementation was announced for this proxy more than 48 hours
before and neither removed nor carried out since, the revision grows by one and nothing else of the proxy changes. -/
theorem upgrades_time_locked (c : Config) (txs : List (Tx c)) (tx : Tx c) (s' : State)
    (h : exec c (run (exec c) (init c) txs) tx = .ok s') (p : Address) (x : Proxy)
    (hx : (run (exec c) (init c) txs).proxies p = x) (hne : x.implementation ≠ 0)
    (hcontroller : x.controller = c.controller ∨ x.initialized = false) :
    ((s'.proxies p).implementation = x.implementation ∧ (s'.proxies p).revision = x.revision ∧
      (s'.proxies p).previousImplementation = x.previousImplementation) ∨
    ∃ proxies implementation, tx.call = .controller (.upgradeProxy proxies) ∧ p ∈ proxies ∧
      tx.env.sender = (run (exec c) (init c) txs).controller.governance ∧
      Announced c txs p implementation tx.env.timestamp ∧ s'.proxies p = x.upgraded implementation := by
  have hzero := reached_uncontrolled c txs p
  have hdue : ∀ implementation time, Controller.Due (run (exec c) (init c) txs).controller (.proxy p) implementation time →
      Announced c txs p implementation time := fun _ _ => due_announced
  have hstep := exec_step h p
  subst hx
  generalize s'.proxies p = x' at hstep ⊢
  cases hstep with
  | same => exact .inl ⟨rfl, rfl, rfl⟩
  | placed logic hplaced => exact absurd hplaced hne
  | created => exact .inl ⟨rfl, rfl, rfl⟩
  | upgradedBy implementation _ _ hsender =>
    -- a sender is an account, so neither the controller nor the zero address
    exfalso
    rcases hcontroller with hc | hinit
    · have hout := tx.env.sender_outside
      rw [hsender, hc, c.controller_isProxy] at hout
      exact Bool.noConfusion hout
    · exact tx.env.sender_ne (hsender.trans (hzero hinit))
  | upgraded implementation _ _ _ proxies hcall hmem hgovernance hd =>
    exact .inr ⟨proxies, implementation, hcall, hmem, hgovernance, hdue _ _ hd, rfl⟩

/-- two proxies, the controller's one and another, and account 5 as governance -/
def exampleConfig : Config := ⟨fun a => a = 10 || a = 20, 10, rfl, 30⟩

theorem five_outside : exampleConfig.isProxy 5 = false := by decide

/-- a call by account 5, at a time when every implementation is accepted -/
def byFive (timestamp : ℕ) (call : Call) : Tx exampleConfig :=
  ⟨⟨timestamp, 1, 5, fun a => a ≠ 0, fun _ => .ok true, fun _ => true, fun _ => .ok 0, fun _ _ => .ok (), Address.five_ne_zero,
    five_outside, rfl⟩, call⟩

/-- the other proxy gets implementation 31 and is initialised; then implementation 32 is announced for it -/
def upgradeAnnounced : List (Tx exampleConfig) :=
  [byFive 0 (.controller (.init 5)), byFive 1 (.initProxy 20 31), byFive 2 (.init 20 10 (.ok ())),
    byFive 10 (.controller (.announceProxyUpgrade [20] [32]))]

theorem upgrades_time_locked_upgradeAnnounced :
    ∃ s', exec exampleConfig (run (exec exampleConfig) (init exampleConfig) upgradeAnnounced)
        (byFive 172811 (.controller (.upgradeProxy [20]))) = .ok s' ∧
      s'.proxies 20 = ⟨32, true, 10, 2, 1, 1, 31⟩ ∧ Announced exampleConfig upgradeAnnounced 20 32 172811 := by
  obtain ⟨s', h⟩ : ∃ s', exec exampleConfig (run (exec exampleConfig) (init exampleConfig) upgradeAnnounced)
      (byFive 172811 (.controller (.upgradeProxy [20]))) = .ok s' := Res.failure_none (by decide)
  have hresult : (exec exampleConfig (run (exec exampleConfig) (init exampleConfig) upgradeAnnounced)
      (byFive 172811 (.controller (.upgradeProxy [20])))).map (fun s => s.proxies 20) = .ok ⟨32, true, 10, 2, 1, 1, 31⟩ := by
    decide
  rw [h] at hresult
  have hproxy : s'.proxies 20 = ⟨32, true, 10, 2, 1, 1, 31⟩ := Except.ok.inj hresult
  refine ⟨s', h, hproxy, ?_⟩
  rcases upgrades_time_locked exampleConfig upgradeAnnounced _ s' h 20 ⟨31, true, 10, 2, 1, 0, 0⟩ (by decide) (by decide)
    (.inl rfl) with ⟨hsame, -⟩ | ⟨proxies, implementation, -, -, -, hann, hup⟩
  · rw [hproxy] at hsame
    exact absurd hsame (by decide)
  · rw [hproxy] at hup
    have himpl : (32 : Address) = implementation := congrArg Proxy.implementation hup
    exact himpl ▸ hann

/-- **The revision.** Between two states of a run the revision of a proxy does not fall, and while it stays the
implementation of a proxy that has one stays; a proxy that has one never loses it, and after one upgrade its previous
implementation is the one before. What `init` wrote never changes. -/
theorem revision_identifies (c : Config) (txs later : List (Tx c)) (p : Address) :
    Follows ((run (exec c) (init c) txs).proxies p) ((run (exec c) (init c) (txs ++ later)).proxies p) := by
  induction later using List.reverseRecOn with
  | nil =>
    rw [List.append_nil]
    exact .refl _
  | append_singleton later tx ih =>
    rw [← List.append_assoc, run_snoc]
    cases hexec : exec c (run (exec c) (init c) (txs ++ later)) tx with
    | error e => exact ih
    | ok s' => exact ih.trans (exec_step hexec p).follows

end SimContracts.Proxies
