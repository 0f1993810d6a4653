import Mathlib.Tactic.Common

/-!
# Runs of a partial step function with an output log

A step takes an action and either yields the next state with its outputs or yields nothing,
when the action aborts or never returns; a run then simply ends. Each step of a run meets a
condition on the state before it and on the action. Whatever holds initially and is preserved
by every step meeting the condition holds of every state a run reaches, together with the log
of all outputs.

Where the actions matter, a run is the one along a list of them. Two properties of a step which agree under
an invariant, carried on by the steps which have the second one, agree along the whole run; for a total
step function the invariant may speak of the actions to come.

In a store which gives a value to each key, each operation changes the value of at most one key. After any
sequence of operations the value of a key is what the operations on this key alone make of its first value,
in their order.
-/

/-- The states reached by runs, with the outputs logged on the way. -/
inductive Run {S A O : Type*} (step : S → A → Option (S × List O)) (meets : S → A → Prop)
    (initial : S) : S → List O → Prop
  | start : Run step meets initial initial []
  | next {s s' : S} {a : A} {log out : List O} :
      Run step meets initial s log → meets s a → step s a = some (s', out) →
        Run step meets initial s' (log ++ out)

namespace Run

variable {S A O : Type*} {step : S → A → Option (S × List O)} {meets : S → A → Prop}
  {initial : S}

/-- A run of one step. -/
theorem single {s : S} {a : A} {out : List O} (hmeets : meets initial a)
    (hstep : step initial a = some (s, out)) : Run step meets initial s out := by
  have hrun := Run.next .start hmeets hstep
  rwa [List.nil_append] at hrun

/-- The invariant rule for runs. -/
theorem invariant {inv : S → List O → Prop} (hstart : inv initial [])
    (hstep : ∀ {s s' : S} {a : A} {log out : List O}, inv s log → meets s a →
      step s a = some (s', out) → inv s' (log ++ out))
    {s : S} {log : List O} (hrun : Run step meets initial s log) : inv s log := by
  induction hrun with
  | start => exact hstart
  | next _ hmeets hs ih => exact hstep ih hmeets hs

end Run

section Along

variable {S A O : Type*} (step : S → A → Option (S × List O))

/-- The state after a list of actions with the log of their outputs, unless a step yields nothing. -/
def runAlong : S → List A → Option (S × List O)
  | s, [] => some (s, [])
  | s, a :: rest =>
    (step s a).bind fun next => (runAlong next.1 rest).map fun result => (result.1, next.2 ++ result.2)

/-- Every step along a list of actions meets a condition, as far as the steps yield something. -/
def MeetsAlong (meets : S → A → Prop) : S → List A → Prop
  | _, [] => True
  | s, a :: rest => meets s a ∧ ∀ s' out, step s a = some (s', out) → MeetsAlong meets s' rest

/-- Every step along a list of actions which yields something has a property of the state before it, the
action, and what it yields. -/
def StepsAlong (p : S → A → S × List O → Prop) : S → List A → Prop
  | _, [] => True
  | s, a :: rest => ∀ next, step s a = some next → p s a next ∧ StepsAlong p next.1 rest

/-- The first step of such a list. -/
theorem StepsAlong.cons_iff {p : S → A → S × List O → Prop} {s : S} {a : A} {next : S × List O}
    (h : step s a = some next) (rest : List A) :
    StepsAlong step p s (a :: rest) ↔ p s a next ∧ StepsAlong step p next.1 rest := by
  constructor
  · exact fun hall => hall next h
  · intro hboth other hother
    rw [← Option.some.inj (h.symm.trans hother)]
    exact hboth

/-- What every step has, all steps along a list of actions have. -/
theorem StepsAlong.of_forall {p : S → A → S × List O → Prop} (h : ∀ s a next, p s a next) (s : S)
    (actions : List A) : StepsAlong step p s actions := by
  induction actions generalizing s with
  | nil => trivial
  | cons a rest ih => exact fun next _ => ⟨h s a next, ih next.1⟩

/-- Under an invariant which the steps meeting a condition carry on, a property of the steps which agrees with
the condition holds of all steps along a list of actions exactly when the condition does. -/
theorem StepsAlong.iff_of_invariant (inv : S → Prop) {p : S → A → S × List O → Prop}
    {meets condition : S → A → Prop}
    (hinv : ∀ {s : S} {a : A} {next : S × List O}, inv s → meets s a → condition s a → step s a = some next →
      inv next.1)
    (hstep : ∀ {s : S} {a : A} {next : S × List O}, inv s → meets s a → step s a = some next →
      (p s a next ↔ condition s a))
    {s : S} (hs : inv s) {actions : List A} (hmeets : StepsAlong step (fun s a _ => meets s a) s actions) :
    StepsAlong step p s actions ↔ StepsAlong step (fun s a _ => condition s a) s actions := by
  induction actions generalizing s with
  | nil => exact Iff.rfl
  | cons a rest ih =>
    apply forall_congr'
    intro next
    apply imp_congr_right
    intro hnext
    obtain ⟨hmeet, hlater⟩ := hmeets next hnext
    rw [hstep hs hmeet hnext]
    exact and_congr_right fun hcondition => ih (hinv hs hmeet hcondition hnext) hlater

/-- All states along a list of actions have a property. -/
def HoldsAlong (holds : S → Prop) (s : S) (actions : List A) : Prop :=
  holds s ∧ StepsAlong step (fun _ _ next => holds next.1) s actions

/-- Where a step from a state with a property keeps it exactly under a condition, all states along a list of
actions have it exactly when the first one does and all steps meet the condition. -/
theorem HoldsAlong.iff_of_step (inv : S → Prop) {holds : S → Prop} {meets condition : S → A → Prop} {s : S}
    (hstart : holds s → inv s)
    (hinv : ∀ {s : S} {a : A} {next : S × List O}, inv s → condition s a → step s a = some next → inv next.1)
    (hstep : ∀ {s : S} {a : A} {next : S × List O}, inv s → holds s → meets s a → step s a = some next →
      (holds next.1 ↔ condition s a))
    {actions : List A} (hmeets : StepsAlong step (fun s a _ => meets s a) s actions) :
    HoldsAlong step holds s actions ↔ holds s ∧ StepsAlong step (fun s a _ => condition s a) s actions := by
  apply and_congr_right
  intro hholds
  refine StepsAlong.iff_of_invariant step (fun s => inv s ∧ holds s) ?_ ?_ ⟨hstart hholds, hholds⟩ hmeets
  · intro s a next hboth hmeet hcondition hnext
    exact ⟨hinv hboth.1 hcondition hnext, (hstep hboth.1 hboth.2 hmeet hnext).mpr hcondition⟩
  · intro s a next hboth hmeet hnext
    exact hstep hboth.1 hboth.2 hmeet hnext

/-- Where a step which meets the condition does the same for actions which are the same in what matters, a run
along such actions does the same. -/
theorem runAlong_congr (inv : S → Prop) {meets : S → A → Prop} {same : A → A → Prop}
    (hinv : ∀ {s s' : S} {a : A} {out : List O}, inv s → step s a = some (s', out) → inv s')
    (hsame : ∀ {s : S} {a a' : A}, inv s → meets s a → same a a' → step s a = step s a')
    {s : S} (hs : inv s) {actions actions' : List A} (hactions : List.Forall₂ same actions actions')
    (hmeets : MeetsAlong step meets s actions) : runAlong step s actions = runAlong step s actions' := by
  induction hactions generalizing s with
  | nil => rfl
  | cons hfirst _ ih =>
    obtain ⟨hmeet, hlater⟩ := hmeets
    rw [runAlong, runAlong, ← hsame hs hmeet hfirst]
    cases hnext : step s _ with
    | none => rfl
    | some next => rw [Option.bind_some, Option.bind_some, ih (hinv hs hnext) (hlater next.1 next.2 hnext)]

end Along

/-- Every step of the run over a list of actions has a property. -/
def Throughout {S A : Type*} (step : S → A → S) (p : S → A → Prop) : S → List A → Prop
  | _, [] => True
  | s, a :: rest => p s a ∧ Throughout step p (step s a) rest

namespace Throughout

variable {S A : Type*} {step : S → A → S}

/-- Where a property of a step is its condition under an invariant which such steps carry on, it holds of
all steps of a run exactly when the condition does. -/
theorem iff_of_invariant {holds condition : S → A → Prop} {inv : S → List A → Prop}
    (hinv : ∀ {s : S} {a : A} {rest : List A}, inv s (a :: rest) → condition s a → inv (step s a) rest)
    (hholds : ∀ {s : S} {a : A} {rest : List A}, inv s (a :: rest) → (holds s a ↔ condition s a))
    {actions : List A} {s : S} (hstart : inv s actions) :
    Throughout step holds s actions ↔ Throughout step condition s actions := by
  induction actions generalizing s with
  | nil => exact Iff.rfl
  | cons a rest ih =>
    rw [Throughout, Throughout, hholds hstart]
    exact and_congr_right fun hcondition => ih (hinv hstart hcondition)

end Throughout

/-! ## Operations on one key -/

/-- The operations of a store; `key` names what an operation changes. -/
structure KeyedStore (S K B O : Type*) where
  value : S → K → B
  apply : S → O → S
  key : O → Option K
  change : O → B → B
  value_apply : ∀ s o k, key o = some k → value (apply s o) k = change o (value s k)
  value_apply_of_ne : ∀ s o k, key o ≠ some k → value (apply s o) k = value s k

namespace KeyedStore

variable {S K B O : Type*} [DecidableEq K] (store : KeyedStore S K B O)

/-- The operations on a key alone, one after another on a value. -/
def replay (ops : List O) (k : K) (first : B) : B :=
  (ops.filter fun o => store.key o = some k).foldl (fun b o => store.change o b) first

/-- The value of a key after a sequence of operations. -/
theorem value_foldl (ops : List O) (s : S) (k : K) :
    store.value (ops.foldl store.apply s) k = store.replay ops k (store.value s k) := by
  induction ops generalizing s with
  | nil => rfl
  | cons o rest ih =>
    rw [List.foldl_cons, ih, replay, replay]
    by_cases hkey : store.key o = some k
    · rw [store.value_apply s o k hkey, List.filter_cons_of_pos (by simpa using hkey), List.foldl_cons]
    · rw [store.value_apply_of_ne s o k hkey, List.filter_cons_of_neg (by simpa using hkey)]

end KeyedStore
