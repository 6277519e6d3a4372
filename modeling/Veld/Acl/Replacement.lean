import Veld.Acl.Loader

/-!
# Replacing the policy decider

The dispatcher keeps its decider in an `atomic.Value`, whose `Store` panics on a
value of another concrete type than the ones before. `CombinedPolicy` returns the
swap itself while there is no network policy, and a `*combinedPolicy` while there is
one. The store of a new decider therefore succeeds exactly as long as the network
policy is always there, or never, when the decider is set.
-/

namespace Veld

/-- The ways `atomic.Value.Store` panics. -/
inductive StorePanic
  | nilValue
  | inconsistentType
  deriving DecidableEq, Repr

def StorePanic.message : StorePanic → String
  | nilValue => "sync/atomic: store of nil value into Value"
  | inconsistentType => "sync/atomic: store of inconsistently typed value into Value"

/-- `atomic.Value.Store` of an interface value over what the `Value` holds. -/
def atomicStore {α τ : Type} [DecidableEq τ] (typeOf : α → τ) (held new : Option α) :
    Except StorePanic (Option α) :=
  match new with
  | none => .error .nilValue
  | some x =>
    if held.all fun y => typeOf y = typeOf x then .ok (some x) else .error .inconsistentType

/-- A value is stored exactly if it has the type of the one before. -/
theorem atomicStore_some {α τ : Type} [DecidableEq τ] {typeOf : α → τ} {held held' : Option α}
    {x : α} : atomicStore typeOf held (some x) = .ok held' ↔
      (∀ y, held = some y → typeOf y = typeOf x) ∧ held' = some x := by
  cases held with
  | none => simp [atomicStore, eq_comm]
  | some y =>
    by_cases h : typeOf y = typeOf x
    · simp [atomicStore, h, eq_comm]
    · simp [atomicStore, h]

end Veld

namespace Veld.Acl

open Peer

/-- A `*PolicySwap`. -/
abbrev SwapRef := Nat

/-- A `PolicyDecider` that is not nil. -/
inductive PolicyDecider
  | swap (ref : SwapRef)
  | compiled (cp : CompiledPolicy)
  | combined (localPolicy network : PolicyDecider)
  /-- Any other implementation of the interface. -/
  | other (type : String) (decide : Decider)

/-- The concrete types behind the interface. -/
inductive DeciderType
  | policySwap
  | compiledPolicy
  | combinedPolicy
  | other (type : String)
  deriving DecidableEq, Repr

namespace PolicyDecider

def type : PolicyDecider → DeciderType
  | swap _ => .policySwap
  | compiled _ => .compiledPolicy
  | combined _ _ => .combinedPolicy
  | other type _ => .other type

/-- `Decide`, with what the pointers of the swaps hold now. -/
def decide (pointer : SwapRef → Option CompiledPolicy) : PolicyDecider → Decider
  | swap ref => swapDecide (pointer ref)
  | compiled cp => cp.decide
  | combined localPolicy network =>
    Acl.combined (localPolicy.decide pointer) (network.decide pointer)
  | other _ decide => decide

/-- `Combine`. -/
def combine : Option PolicyDecider → Option PolicyDecider → Option PolicyDecider
  | none, network => network
  | some localPolicy, none => some localPolicy
  | some localPolicy, some network => some (combined localPolicy network)

end PolicyDecider

/-- The loader with its swap and network policy, and the decider of the dispatcher. -/
structure PolicyWiring where
  loader : Loader
  swap : SwapRef
  network : Option PolicyDecider
  /-- `Dispatcher.policyDecider`. -/
  policyDecider : Option PolicyDecider := none

/-- The calls that replace policies. -/
inductive PolicyCall
  | setNetworkPolicy (network : Option PolicyDecider)
  | reload (view : FileView)
  /-- `SetPolicyDecider(CombinedPolicy())`. -/
  | setPolicyDecider

namespace PolicyWiring

variable (w : PolicyWiring)

def combinedPolicy : Option PolicyDecider := PolicyDecider.combine (some (.swap w.swap)) w.network

def setPolicyDecider (pd : Option PolicyDecider) : Except StorePanic PolicyWiring := do
  let stored ← atomicStore PolicyDecider.type w.policyDecider pd
  pure { w with policyDecider := stored }

def getPolicyDecider : Option PolicyDecider := w.policyDecider

/-- A store that panics leaves the decider as it was. -/
def next : PolicyCall → PolicyWiring
  | .setNetworkPolicy network => { w with network }
  | .reload view => { w with loader := w.loader.next view }
  | .setPolicyDecider => (w.setPolicyDecider w.combinedPolicy).toOption.getD w

/-- The combined decider decides as the combined policy of the loader does. -/
theorem decide_combinedPolicy (pointer : SwapRef → Option CompiledPolicy)
    (h : pointer w.swap = w.loader.swap) :
    w.combinedPolicy.map (PolicyDecider.decide pointer) =
      { w.loader with network := w.network.map (PolicyDecider.decide pointer) }.combinedPolicy := by
  rw [combinedPolicy, Loader.combinedPolicy, ← h]
  cases w.network with
  | none => rfl
  | some network => rfl

/-- A set of the combined decider does not panic, and the decider is the one that was set. -/
def Replaces (call : PolicyCall) : Prop :=
  call = .setPolicyDecider → ∃ w', w.setPolicyDecider w.combinedPolicy = .ok w' ∧
    w'.getPolicyDecider = w.combinedPolicy

/-- A set finds a network policy, or finds none. -/
def Finds (present : Bool) (call : PolicyCall) : Prop :=
  call = .setPolicyDecider → w.network.isSome = present

variable {w} {w' : PolicyWiring} {present : Bool}

/-- The type of the combined decider tells whether there is a network policy. -/
def typeFor (present : Bool) : DeciderType := if present then .combinedPolicy else .policySwap

theorem typeFor_inj {b b' : Bool} (h : typeFor b = typeFor b') : b = b' := by
  cases b <;> cases b' <;> first | rfl | cases h

theorem exists_combinedPolicy (w : PolicyWiring) :
    ∃ pd, w.combinedPolicy = some pd ∧ pd.type = typeFor w.network.isSome := by
  unfold combinedPolicy
  cases w.network with
  | none => exact ⟨_, rfl, rfl⟩
  | some network => exact ⟨_, rfl, rfl⟩

theorem setPolicyDecider_ok (h : w.setPolicyDecider w.combinedPolicy = .ok w') :
    w' = { w with policyDecider := w.combinedPolicy } := by
  obtain ⟨pd, hpd, -⟩ := exists_combinedPolicy w
  rw [hpd] at h ⊢
  unfold setPolicyDecider at h
  cases hstore : atomicStore PolicyDecider.type w.policyDecider (some pd) with
  | error err =>
    rw [hstore] at h
    cases h
  | ok stored =>
    rw [hstore] at h
    obtain ⟨-, rfl⟩ := atomicStore_some.mp hstore
    exact (Except.ok.inj h).symm

/-- A set succeeds exactly if the decider before it is of the type the presence of a network policy
makes. -/
theorem replaces_setPolicyDecider : w.Replaces .setPolicyDecider ↔
    ∀ pd, w.policyDecider = some pd → pd.type = typeFor w.network.isSome := by
  obtain ⟨pd, hpd, htype⟩ := exists_combinedPolicy w
  constructor
  · intro h held hheld
    obtain ⟨w', hw', -⟩ := h rfl
    unfold setPolicyDecider at hw'
    rw [hpd] at hw'
    cases hstore : atomicStore PolicyDecider.type w.policyDecider (some pd) with
    | error err =>
      rw [hstore] at hw'
      cases hw'
    | ok stored => exact ((atomicStore_some.mp hstore).1 held hheld).trans htype
  · intro h _
    refine ⟨{ w with policyDecider := w.combinedPolicy }, ?_, rfl⟩
    have hstore : atomicStore PolicyDecider.type w.policyDecider (some pd) = .ok (some pd) :=
      atomicStore_some.mpr ⟨fun held hheld => (h held hheld).trans htype.symm, rfl⟩
    rw [setPolicyDecider, hpd, hstore]
    rfl

theorem next_setPolicyDecider (h : w.Replaces .setPolicyDecider) :
    w.next .setPolicyDecider = { w with policyDecider := w.combinedPolicy } := by
  obtain ⟨w', hw', -⟩ := h rfl
  rw [next, hw', setPolicyDecider_ok hw']
  rfl

/-- The decider of the dispatcher has the type that goes with the network policy. -/
def Typed (present : Bool) (w : PolicyWiring) : Prop :=
  ∀ pd, w.policyDecider = some pd → pd.type = typeFor present

theorem typed_of_none (h : w.policyDecider = none) : Typed present w := by
  intro pd hpd
  rw [h] at hpd
  cases hpd

theorem Typed.next {call : PolicyCall} (h : Typed present w) (hreplaces : w.Replaces call)
    (hfinds : w.Finds present call) : Typed present (w.next call) := by
  cases call with
  | setNetworkPolicy network => exact h
  | reload view => exact h
  | setPolicyDecider =>
    intro pd hpd
    rw [next_setPolicyDecider hreplaces] at hpd
    obtain ⟨pd', hpd', htype⟩ := exists_combinedPolicy w
    obtain rfl : pd' = pd := Option.mem_unique hpd' hpd
    rw [htype, hfinds rfl]

theorem Typed.replaces {call : PolicyCall} (h : Typed present w) (hfinds : w.Finds present call) :
    w.Replaces call := by
  intro hcall
  refine replaces_setPolicyDecider.mpr ?_ rfl
  rw [hfinds hcall]
  exact h

/-- While the sets find the network policy in the same state, each one replaces the decider. -/
theorem along_replaces {calls : List PolicyCall} (hnone : w.policyDecider = none)
    (h : Along next (Finds · present) w calls) :
    Along next Replaces w calls ∧ Typed present (run next w calls) := by
  induction calls using List.reverseRecOn with
  | nil => exact ⟨along_nil, typed_of_none hnone⟩
  | append_singleton calls call ih =>
    obtain ⟨hpast, hlast⟩ := along_snoc.mp h
    obtain ⟨hreplaces, htyped⟩ := ih hpast
    refine ⟨along_snoc.mpr ⟨hreplaces, htyped.replaces hlast⟩, ?_⟩
    rw [run_snoc]
    exact htyped.next (htyped.replaces hlast) hlast

/-- While each set replaces the decider, they all find the network policy in the same state. -/
theorem along_finds {calls : List PolicyCall} (hnone : w.policyDecider = none)
    (h : Along next Replaces w calls) : ∃ present, Along next (Finds · present) w calls ∧
      Typed present (run next w calls) ∧
      ((run next w calls).policyDecider = none → ∀ call ∈ calls, call ≠ .setPolicyDecider) := by
  induction calls using List.reverseRecOn with
  | nil => exact ⟨true, along_nil, typed_of_none hnone, fun _ => List.forall_mem_nil _⟩
  | append_singleton calls call ih =>
    obtain ⟨hpast, hlast⟩ := along_snoc.mp h
    obtain ⟨present, hfinds, htyped, hfirst⟩ := ih hpast
    rw [run_snoc]
    cases call with
    | setNetworkPolicy network =>
      refine ⟨present, along_snoc.mpr ⟨hfinds, nofun⟩, htyped, fun hslot => ?_⟩
      exact List.forall_mem_append.mpr ⟨hfirst hslot, by simp⟩
    | reload view =>
      refine ⟨present, along_snoc.mpr ⟨hfinds, nofun⟩, htyped, fun hslot => ?_⟩
      exact List.forall_mem_append.mpr ⟨hfirst hslot, by simp⟩
    | setPolicyDecider =>
      -- the decider before this set, if there is one, fixes the state of the network policy
      have hsame : ∃ present', Along next (Finds · present') w calls ∧
          Typed present' (run next w calls) ∧ (run next w calls).network.isSome = present' := by
        cases hslot : (run next w calls).policyDecider with
        | none =>
          refine ⟨_, fun x hx hcall => ?_, typed_of_none hslot, rfl⟩
          exact absurd hcall (hfirst hslot x.2 (snd_mem_of_mem_trail hx))
        | some pd =>
          refine ⟨present, hfinds, htyped, typeFor_inj ?_⟩
          rw [← replaces_setPolicyDecider.mp hlast pd hslot, htyped pd hslot]
      obtain ⟨present', hfinds', htyped', hnow⟩ := hsame
      refine ⟨present', along_snoc.mpr ⟨hfinds', fun _ => hnow⟩,
        htyped'.next hlast fun _ => hnow, fun hslot => ?_⟩
      obtain ⟨pd, hpd, -⟩ := exists_combinedPolicy (run next w calls)
      rw [next_setPolicyDecider hlast] at hslot
      cases hpd.symm.trans hslot

/-- For every loader, network policy and sequence of calls: no set of the combined decider panics
and each one is the decider afterwards, exactly if a network policy is present at all the sets or
at none. -/
theorem decider_replaced_iff (loader : Loader) (swap : SwapRef) (network : Option PolicyDecider)
    (calls : List PolicyCall) :
    Along next Replaces { loader, swap, network } calls ↔
      ∃ present, Along next (Finds · present) { loader, swap, network } calls := by
  constructor
  · intro h
    obtain ⟨present, hfinds, -⟩ := along_finds rfl h
    exact ⟨present, hfinds⟩
  · rintro ⟨present, h⟩
    exact (along_replaces rfl h).1

end PolicyWiring

namespace Sample

/-- A loader without a network policy, as the daemon makes it. -/
def wiring : PolicyWiring where
  loader := loader
  swap := 0
  network := none

/-- A decider that allows everything. -/
def allowAll : PolicyDecider := .other "allowAll" fun _ _ _ _ => ⟨.allow, -1, false⟩

/-- A reload as the handler of SIGHUP makes it. -/
def hangup : List PolicyCall := [.reload .absent, .setPolicyDecider]

end Sample

namespace PolicyWiring

/-- Without a network policy a reload replaces the decider. -/
theorem decider_replaced_iff_hangup :
    Along next Replaces Sample.wiring ([.setPolicyDecider] ++ Sample.hangup) := by
  refine (decider_replaced_iff _ _ _ _).mpr ⟨false, ?_⟩
  exact along_cons.mpr ⟨fun _ => rfl, along_cons.mpr ⟨nofun, along_cons.mpr ⟨fun _ => rfl,
    along_nil⟩⟩⟩

/-- The first reload after a network policy arrived panics. -/
theorem replaced_decider_panics :
    let w := run next Sample.wiring
      [.setPolicyDecider, .setNetworkPolicy (some Sample.allowAll), .reload .absent]
    w.setPolicyDecider w.combinedPolicy = .error .inconsistentType := rfl

end PolicyWiring

end Veld.Acl
