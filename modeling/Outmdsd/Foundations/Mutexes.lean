import Mathlib.Order.Restriction
import Outmdsd.Foundations.Runs

/-!
# Objects behind mutexes

Any number of threads make calls on a family of objects, each behind its own mutex. A call locks
the mutexes it needs, in any order and with any number of attempts, runs its body in steps on those
objects, unlocks them and returns. The body of a call is a function of the objects it has locked
(`Guarded.body`), so it can neither read nor write another one.

Every run is linearizable (`Guarded.linearizable`): there is one order of the calls in which each of
them, made alone and at once, has the result that it had, and this order keeps that of any two calls
one of which had returned before the other was made.
-/

namespace Outmdsd

/-- The calls on a family of objects. -/
structure Guarded (ι α Op Loc Env Res : Type*) where
  /-- The mutexes that a call locks. -/
  locks : Op → Finset ι
  /-- The locals of a call before the first step of its body. -/
  start : Op → Loc
  /-- A step of the body, on the objects that are locked: the locals after it, or the result. -/
  body : (o : Op) → Loc → Env → (locks o → α) → Option ((locks o → α) × (Loc ⊕ Res))

namespace Guarded

variable {ι α Op Loc Env Res : Type*}

/-- Where a thread is. A call has the position of its invocation in the history for an id. -/
inductive Pc (Op Loc Res : Type*)
  | idle
  | locking (id : ℕ) (o : Op)
  | body (id : ℕ) (o : Op) (x : Loc)
  | unlocking (id : ℕ) (o : Op) (r : Res)

/-- What the callers see. -/
inductive Event (Op Res : Type*)
  | invoke (o : Op)
  | ret (id : ℕ) (r : Res)

/-- A call with its result. -/
structure Call (Op Res : Type*) where
  id : ℕ
  op : Op
  res : Res

/-- The objects with their mutexes, and the threads. -/
structure State (ι α Op Loc Res : Type*) where
  objs : ι → α
  owner : ι → Option ℕ
  pc : ℕ → Pc Op Loc Res
  history : List (Event Op Res)
  /-- The calls whose bodies have ended, in this order. -/
  order : List (Call Op Res)

/-- A step of a thread. -/
inductive Label (ι Op Env : Type*)
  | invoke (τ : ℕ) (o : Op)
  | acquire (τ : ℕ) (i : ι)
  /-- An attempt to lock several mutexes starts over. -/
  | backOff (τ : ℕ) (i : ι)
  | enter (τ : ℕ)
  | act (τ : ℕ) (e : Env)
  | release (τ : ℕ) (i : ι)
  | ret (τ : ℕ)

/-- No call has been made. -/
def init (f : ι → α) : State ι α Op Loc Res where
  objs := f
  owner _ := none
  pc _ := .idle
  history := []
  order := []

/-! ## Calls made alone -/

/-- The body of a call, made alone on the objects `v`, gets to the locals `x` and the objects
`w`. -/
inductive Alone (G : Guarded ι α Op Loc Env Res) (o : Op) (v : G.locks o → α) :
    Loc → (G.locks o → α) → Prop
  | start : Alone G o v (G.start o) v
  | step {x y : Loc} {w w' : G.locks o → α} {e : Env} : Alone G o v x w →
      G.body o x e w = some (w', .inl y) → Alone G o v y w'

variable {G : Guarded ι α Op Loc Env Res}

/-- What the body of a call keeps when it is made alone. -/
theorem Alone.invariant {o : Op} {v w : G.locks o → α} {x : Loc} (h : G.Alone o v x w)
    {I : Loc → (G.locks o → α) → Prop} (h₀ : I (G.start o) v)
    (hstep : ∀ x w e w' y, I x w → G.body o x e w = some (w', .inl y) → I y w') : I x w := by
  induction h with
  | start => exact h₀
  | step _ hb ih => exact hstep _ _ _ _ _ ih hb

/-- The calls are made one after the other, each as `spec` says. -/
inductive Sequential (spec : Op → (ι → α) → Res → (ι → α) → Prop) (f₀ : ι → α) :
    List (Call Op Res) → (ι → α) → Prop
  | nil : Sequential spec f₀ [] f₀
  | snoc {cs : List (Call Op Res)} {f f' : ι → α} {c : Call Op Res} :
      Sequential spec f₀ cs f → spec c.op f c.res f' → Sequential spec f₀ (cs ++ [c]) f'

theorem Sequential.mono {spec spec' : Op → (ι → α) → Res → (ι → α) → Prop} {f₀ f : ι → α}
    {cs : List (Call Op Res)} (h : Sequential spec f₀ cs f)
    (himp : ∀ o f r f', spec o f r f' → spec' o f r f') : Sequential spec' f₀ cs f := by
  induction h with
  | nil => exact .nil
  | snoc _ hc ih => exact ih.snoc (himp _ _ _ _ hc)

/-! ## Steps -/

/-- The thread is at another place. -/
def State.setPc (s : State ι α Op Loc Res) (τ : ℕ) (pc : Pc Op Loc Res) : State ι α Op Loc Res :=
  { s with pc := Function.update s.pc τ pc }

/-- Where a thread is, when one of them is at another place. -/
theorem State.setPc_eq_iff {s : State ι α Op Loc Res} {τ τ' : ℕ} {pc pc' : Pc Op Loc Res} :
    (s.setPc τ pc).pc τ' = pc' ↔ τ' = τ ∧ pc = pc' ∨ τ' ≠ τ ∧ s.pc τ' = pc' := by
  unfold State.setPc
  by_cases hτ : τ' = τ
  · subst hτ
    simp
  · simp [hτ]

/-- The objects in `L` are replaced. -/
def put [DecidableEq ι] {L : Finset ι} (f : ι → α) (v : L → α) : ι → α :=
  fun i => if h : i ∈ L then v ⟨i, h⟩ else f i

section Put

variable [DecidableEq ι] {L : Finset ι} {f : ι → α} {v : L → α}

@[simp] theorem restrict_put : L.restrict (put f v) = v := by
  funext i
  simp [put, Finset.restrict]

theorem put_of_notMem {i : ι} (h : i ∉ L) : put f v i = f i := dif_neg h

theorem restrict_put_of_disjoint {L' : Finset ι} (h : ∀ i ∈ L', i ∉ L) :
    L'.restrict (put f v) = L'.restrict f := by
  funext i
  exact put_of_notMem (h i i.2)

@[simp] theorem put_restrict : put f (L.restrict f) = f := by
  funext i
  unfold put
  split <;> rfl

/-- One of the objects in `L` is replaced. -/
@[simp] theorem put_update (i : L) (x : α) :
    put f (Function.update (L.restrict f) i x) = Function.update f i x := by
  funext j
  unfold put
  split
  · rename_i hj
    by_cases he : j = i
    · subst he
      simp
    · have hne : (⟨j, hj⟩ : L) ≠ i := fun h => he (congrArg Subtype.val h)
      simp [Function.update_of_ne he, Function.update_of_ne hne, Finset.restrict]
  · rename_i hj
    have hne : j ≠ i := fun he => hj (he ▸ i.2)
    rw [Function.update_of_ne hne]

theorem put_singleton {m : ι} (hm : m ∈ L) (h : ∀ i ∈ L, i = m) :
    put f v = Function.update f m (v ⟨m, hm⟩) := by
  funext i
  by_cases hi : i = m
  · subst hi
    simp [put, hm]
  · rw [put_of_notMem fun hL => hi (h i hL), Function.update_of_ne hi]

end Put

variable [DecidableEq ι]

/-- The mutex is locked or unlocked. -/
def State.setOwner (s : State ι α Op Loc Res) (i : ι) (owner : Option ℕ) :
    State ι α Op Loc Res :=
  { s with owner := Function.update s.owner i owner }

/-- A step of a thread. -/
def step (G : Guarded ι α Op Loc Env Res) (s : State ι α Op Loc Res) :
    Label ι Op Env → Option (State ι α Op Loc Res)
  | .invoke τ o =>
    match s.pc τ with
    | .idle =>
      some (State.setPc { s with history := s.history ++ [.invoke o] } τ
        (.locking s.history.length o))
    | _ => none
  | .acquire τ i =>
    match s.pc τ with
    | .locking _ o =>
      if i ∈ G.locks o ∧ s.owner i = none then some (s.setOwner i (some τ)) else none
    | _ => none
  | .backOff τ i =>
    match s.pc τ with
    | .locking _ _ => if s.owner i = some τ then some (s.setOwner i none) else none
    | _ => none
  | .enter τ =>
    match s.pc τ with
    | .locking id o =>
      if ∀ i ∈ G.locks o, s.owner i = some τ then some (s.setPc τ (.body id o (G.start o)))
      else none
    | _ => none
  | .act τ e =>
    match s.pc τ with
    | .body id o x =>
      match G.body o x e ((G.locks o).restrict s.objs) with
      | some (v, .inl y) => some (State.setPc { s with objs := put s.objs v } τ (.body id o y))
      | some (v, .inr r) =>
        some (State.setPc { s with objs := put s.objs v, order := s.order ++ [⟨id, o, r⟩] } τ
          (.unlocking id o r))
      | none => none
    | _ => none
  | .release τ i =>
    match s.pc τ with
    | .unlocking _ _ _ => if s.owner i = some τ then some (s.setOwner i none) else none
    | _ => none
  | .ret τ =>
    match s.pc τ with
    | .unlocking id o r =>
      if ∀ i ∈ G.locks o, s.owner i ≠ some τ then
        some (State.setPc { s with history := s.history ++ [.ret id r] } τ .idle)
      else none
    | _ => none

/-- A call made alone and at once. -/
def Atomic (G : Guarded ι α Op Loc Env Res) (o : Op) (f : ι → α) (r : Res) (f' : ι → α) : Prop :=
  ∃ x w e w', G.Alone o ((G.locks o).restrict f) x w ∧ G.body o x e w = some (w', .inr r) ∧
    f' = put f w'

/-- The last step of a call that is made alone, and what its body keeps. -/
theorem Atomic.exists_last {G : Guarded ι α Op Loc Env Res} {o : Op} {f f' : ι → α} {r : Res}
    (h : G.Atomic o f r f') {I : Loc → (G.locks o → α) → Prop}
    (h₀ : I (G.start o) ((G.locks o).restrict f))
    (hstep : ∀ x w e w' y, I x w → G.body o x e w = some (w', .inl y) → I y w') :
    ∃ x w e w', I x w ∧ G.body o x e w = some (w', .inr r) ∧ f' = put f w' := by
  obtain ⟨x, w, e, w', hal, hb, hf⟩ := h
  exact ⟨x, w, e, w', hal.invariant h₀ hstep, hb, hf⟩

/-- The steps, by what they do. -/
inductive Move (G : Guarded ι α Op Loc Env Res) (s : State ι α Op Loc Res) :
    Label ι Op Env → State ι α Op Loc Res → Prop
  | invoke {τ : ℕ} {o : Op} (hpc : s.pc τ = .idle) :
    Move G s (.invoke τ o) (State.setPc { s with history := s.history ++ [.invoke o] } τ
      (.locking s.history.length o))
  | acquire {τ id : ℕ} {o : Op} {i : ι} (hpc : s.pc τ = .locking id o) (hi : s.owner i = none) :
    Move G s (.acquire τ i) (s.setOwner i (some τ))
  | backOff {τ id : ℕ} {o : Op} {i : ι} (hpc : s.pc τ = .locking id o)
      (hi : s.owner i = some τ) : Move G s (.backOff τ i) (s.setOwner i none)
  | enter {τ id : ℕ} {o : Op} (hpc : s.pc τ = .locking id o)
      (hown : ∀ i ∈ G.locks o, s.owner i = some τ) :
    Move G s (.enter τ) (s.setPc τ (.body id o (G.start o)))
  | act {τ id : ℕ} {o : Op} {x y : Loc} {e : Env} {v : G.locks o → α}
      (hpc : s.pc τ = .body id o x)
      (hb : G.body o x e ((G.locks o).restrict s.objs) = some (v, .inl y)) :
    Move G s (.act τ e) (State.setPc { s with objs := put s.objs v } τ (.body id o y))
  | commit {τ id : ℕ} {o : Op} {x : Loc} {e : Env} {r : Res} {v : G.locks o → α}
      (hpc : s.pc τ = .body id o x)
      (hb : G.body o x e ((G.locks o).restrict s.objs) = some (v, .inr r)) :
    Move G s (.act τ e) (State.setPc
      { s with objs := put s.objs v, order := s.order ++ [⟨id, o, r⟩] } τ (.unlocking id o r))
  | release {τ id : ℕ} {o : Op} {r : Res} {i : ι} (hpc : s.pc τ = .unlocking id o r)
      (hi : s.owner i = some τ) : Move G s (.release τ i) (s.setOwner i none)
  | ret {τ id : ℕ} {o : Op} {r : Res} (hpc : s.pc τ = .unlocking id o r) :
    Move G s (.ret τ) (State.setPc { s with history := s.history ++ [.ret id r] } τ .idle)

theorem move {G : Guarded ι α Op Loc Env Res} {s s' : State ι α Op Loc Res} {l : Label ι Op Env}
    (hs : G.step s l = some s') : Move G s l s' := by
  unfold step at hs
  split at hs
  case h_1 | h_4 | h_7 =>
    split at hs
    · first
        | (cases hs; exact .invoke ‹_›)
        | (split at hs
           · cases hs
             first | exact .enter ‹_› ‹_› | exact .ret ‹_›
           · cases hs)
    · cases hs
  case h_2 =>
    split at hs
    · split at hs
      · rename_i hi
        cases hs
        exact .acquire ‹_› hi.2
      · cases hs
    · cases hs
  case h_3 | h_6 =>
    split at hs
    · split at hs
      · cases hs
        first | exact .backOff ‹_› ‹_› | exact .release ‹_› ‹_›
      · cases hs
    · cases hs
  case h_5 =>
    split at hs
    · split at hs
      · cases hs
        exact .act ‹_› ‹_›
      · cases hs
        exact .commit ‹_› ‹_›
      · cases hs
    · cases hs

/-! ## The objects -/

variable {G : Guarded ι α Op Loc Env Res} {s s' : State ι α Op Loc Res} {f₀ f : ι → α} {τ : ℕ}
  {pc : Pc Op Loc Res}

/-- The objects are those of the calls whose bodies have ended, but for the ones a body is working
on; and such a body has come as far as it would have come alone. -/
structure Inv (G : Guarded ι α Op Loc Env Res) (f₀ : ι → α) (s : State ι α Op Loc Res)
    (f : ι → α) : Prop where
  sequential : Sequential G.Atomic f₀ s.order f
  held : ∀ τ id o x, s.pc τ = .body id o x → ∀ i ∈ G.locks o, s.owner i = some τ
  free : ∀ i, (∀ τ id o x, s.pc τ = .body id o x → i ∉ G.locks o) → s.objs i = f i
  alone : ∀ τ id o x, s.pc τ = .body id o x →
    G.Alone o ((G.locks o).restrict f) x ((G.locks o).restrict s.objs)

theorem inv_init (f₀ : ι → α) : G.Inv f₀ (init f₀) f₀ where
  sequential := .nil
  held := nofun
  free _ _ := rfl
  alone := nofun

/-- No two threads work on one object. -/
theorem Inv.disjoint (h : G.Inv f₀ s f) {τ τ' id id' : ℕ} {o o' : Op} {x x' : Loc} (hne : τ' ≠ τ)
    (hpc : s.pc τ = .body id o x) (hpc' : s.pc τ' = .body id' o' x') :
    ∀ i ∈ G.locks o', i ∉ G.locks o := fun i hi' hi => by
  have h1 := h.held τ id o x hpc i hi
  have h2 := h.held τ' id' o' x' hpc' i hi'
  exact hne (Option.some.inj (h2.symm.trans h1))

/-- A step outside the bodies. -/
theorem Inv.outside (h : G.Inv f₀ s f) (hobjs : s'.objs = s.objs) (horder : s'.order = s.order)
    (hpc : ∀ τ id o x, s'.pc τ = .body id o x ↔ s.pc τ = .body id o x)
    (howner : ∀ τ id o x, s.pc τ = .body id o x → ∀ i, s.owner i = some τ → s'.owner i = some τ) :
    G.Inv f₀ s' f where
  sequential := horder ▸ h.sequential
  held τ id o x hb i hi := by
    have hb := (hpc τ id o x).mp hb
    exact howner τ id o x hb i (h.held τ id o x hb i hi)
  free i hi := hobjs ▸ h.free i fun τ id o x hb => hi τ id o x ((hpc τ id o x).mpr hb)
  alone τ id o x hb := hobjs ▸ h.alone τ id o x ((hpc τ id o x).mp hb)

/-- The thread is not in the body of a call. -/
def Pc.Outside (pc : Pc Op Loc Res) : Prop := ∀ id o x, pc ≠ .body id o x

omit [DecidableEq ι] in
theorem outside_of (hpc : s.pc τ = pc) (h : pc.Outside) : (s.pc τ).Outside := hpc ▸ h

/-- A thread outside the bodies changes the owner of a mutex that is free or its own. -/
theorem Inv.setOwner (h : G.Inv f₀ s f) (hout : (s.pc τ).Outside) {i : ι} {owner : Option ℕ}
    (hi : s.owner i = none ∨ s.owner i = some τ) : G.Inv f₀ (s.setOwner i owner) f := by
  refine h.outside rfl rfl (fun _ _ _ _ => Iff.rfl) fun τ' id o x hb j hj => ?_
  have hne : j ≠ i := by
    rintro rfl
    rcases hi with hi | hi
    · rw [hi] at hj
      cases hj
    · obtain rfl := Option.some.inj (hi.symm.trans hj)
      exact hout id o x hb
  simpa [State.setOwner, Function.update_of_ne hne] using hj

/-- A thread that holds the mutexes of its call enters the body. -/
theorem Inv.enter (h : G.Inv f₀ s f) {id : ℕ} {o : Op} (hout : (s.pc τ).Outside)
    (hown : ∀ i ∈ G.locks o, s.owner i = some τ) :
    G.Inv f₀ (s.setPc τ (.body id o (G.start o))) f := by
  have hcases : ∀ {τ' id' o' x'}, (s.setPc τ (.body id o (G.start o))).pc τ' = .body id' o' x' →
      (τ' = τ ∧ id = id' ∧ o = o' ∧ G.start o = x') ∨ s.pc τ' = .body id' o' x' :=
    fun hb => (State.setPc_eq_iff.mp hb).imp (fun ⟨hτ, he⟩ => ⟨hτ, by simpa using he⟩) And.right
  have hold : ∀ {τ' id' o' x'}, s.pc τ' = .body id' o' x' →
      (s.setPc τ (.body id o (G.start o))).pc τ' = .body id' o' x' := fun {τ' id' o' x'} hb =>
    State.setPc_eq_iff.mpr (.inr ⟨fun he => hout id' o' x' (he ▸ hb), hb⟩)
  refine ⟨h.sequential, fun τ' id' o' x' hb i hi => ?_, fun i hi => ?_, fun τ' id' o' x' hb => ?_⟩
  · rcases hcases hb with ⟨rfl, rfl, rfl, rfl⟩ | hb
    · exact hown i hi
    · exact h.held τ' id' o' x' hb i hi
  · exact h.free i fun τ' id' o' x' hb => hi τ' id' o' x' (hold hb)
  · rcases hcases hb with ⟨rfl, rfl, rfl, rfl⟩ | hb
    · have hsame : (G.locks o).restrict s.objs = (G.locks o).restrict f := by
        funext i
        refine h.free i fun τ₁ id₁ o₁ x₁ hb₁ hi => ?_
        obtain rfl := Option.some.inj ((hown i i.2).symm.trans (h.held τ₁ id₁ o₁ x₁ hb₁ i hi))
        exact hout id₁ o₁ x₁ hb₁
      exact hsame ▸ .start
    · exact h.alone τ' id' o' x' hb

/-- A step of a body. -/
theorem Inv.act (h : G.Inv f₀ s f) {id : ℕ} {o : Op} {x y : Loc} {e : Env}
    {v : G.locks o → α} (hpc : s.pc τ = .body id o x)
    (hb : G.body o x e ((G.locks o).restrict s.objs) = some (v, .inl y)) :
    G.Inv f₀ (State.setPc { s with objs := put s.objs v } τ (.body id o y)) f := by
  have hcases : ∀ {τ' id' o' x'},
      (State.setPc { s with objs := put s.objs v } τ (.body id o y)).pc τ' = .body id' o' x' →
        (τ' = τ ∧ id = id' ∧ o = o' ∧ y = x') ∨ (τ' ≠ τ ∧ s.pc τ' = .body id' o' x') :=
    fun hx => (State.setPc_eq_iff.mp hx).imp_left fun ⟨hτ, he⟩ => ⟨hτ, by simpa using he⟩
  refine ⟨h.sequential, fun τ' id' o' x' hx i hi => ?_, fun i hi => ?_, fun τ' id' o' x' hx => ?_⟩
  · rcases hcases hx with ⟨rfl, rfl, rfl, rfl⟩ | ⟨-, hx⟩
    · exact h.held τ' id o x hpc i hi
    · exact h.held τ' id' o' x' hx i hi
  · -- the objects of the call are not free
    have hio : i ∉ G.locks o := hi τ id o y (State.setPc_eq_iff.mpr (.inl ⟨rfl, rfl⟩))
    refine (put_of_notMem hio).trans (h.free i fun τ' id' o' x' hx => ?_)
    by_cases hτ : τ' = τ
    · subst hτ
      obtain ⟨-, rfl, -⟩ := Pc.body.inj (hpc.symm.trans hx)
      exact hio
    · exact hi τ' id' o' x' (State.setPc_eq_iff.mpr (.inr ⟨hτ, hx⟩))
  · rcases hcases hx with ⟨rfl, rfl, rfl, rfl⟩ | ⟨hτ, hx⟩
    · have hstep := (h.alone τ' id o x hpc).step hb
      rwa [← restrict_put (f := s.objs) (v := v)] at hstep
    · have hrest : (G.locks o').restrict (put s.objs v) = (G.locks o').restrict s.objs :=
        restrict_put_of_disjoint (h.disjoint hτ hpc hx)
      exact hrest ▸ h.alone τ' id' o' x' hx

/-- The last step of a body: the call takes effect. -/
theorem Inv.commit (h : G.Inv f₀ s f) {id : ℕ} {o : Op} {x : Loc} {e : Env} {r : Res}
    {v : G.locks o → α} (hpc : s.pc τ = .body id o x)
    (hb : G.body o x e ((G.locks o).restrict s.objs) = some (v, .inr r)) :
    G.Inv f₀ (State.setPc { s with objs := put s.objs v, order := s.order ++ [⟨id, o, r⟩] } τ
      (.unlocking id o r)) (put f v) := by
  have hcases : ∀ {τ' id' o' x'}, (State.setPc { s with
      objs := put s.objs v, order := s.order ++ [⟨id, o, r⟩] } τ (.unlocking id o r)).pc τ' =
        .body id' o' x' → τ' ≠ τ ∧ s.pc τ' = .body id' o' x' :=
    fun hx => (State.setPc_eq_iff.mp hx).resolve_left fun ⟨_, he⟩ => nomatch he
  refine ⟨h.sequential.snoc ⟨x, _, e, v, h.alone τ id o x hpc, hb, rfl⟩,
    fun τ' id' o' x' hx i hi => ?_, fun i hi => ?_, fun τ' id' o' x' hx => ?_⟩
  · exact h.held τ' id' o' x' (hcases hx).2 i hi
  · change put s.objs v i = put f v i
    by_cases hio : i ∈ G.locks o
    · simp only [put, dif_pos hio]
    · rw [put_of_notMem hio, put_of_notMem hio]
      refine h.free i fun τ' id' o' x' hx => ?_
      by_cases hτ : τ' = τ
      · subst hτ
        obtain ⟨-, rfl, -⟩ := Pc.body.inj (hpc.symm.trans hx)
        exact hio
      · exact hi τ' id' o' x' (State.setPc_eq_iff.mpr (.inr ⟨hτ, hx⟩))
  · obtain ⟨hτ, hx⟩ := hcases hx
    have hdis := h.disjoint hτ hpc hx
    have hrest : (G.locks o').restrict (put s.objs v) = (G.locks o').restrict s.objs :=
      restrict_put_of_disjoint hdis
    have hrest' : (G.locks o').restrict (put f v) = (G.locks o').restrict f :=
      restrict_put_of_disjoint hdis
    exact hrest ▸ hrest' ▸ h.alone τ' id' o' x' hx

theorem Inv.step (h : G.Inv f₀ s f) {l : Label ι Op Env} (hs : G.step s l = some s') :
    ∃ f', G.Inv f₀ s' f' := by
  have houtside : ∀ {τ pc}, s.pc τ = pc → pc.Outside → ∀ {pc' : Pc Op Loc Res}, pc'.Outside →
      ∀ history, G.Inv f₀ (State.setPc { s with history := history } τ pc') f := by
    intro τ pc hpc hout pc' hout' history
    refine h.outside rfl rfl (fun τ' id o x => ?_) fun _ _ _ _ _ _ => id
    rw [State.setPc_eq_iff]
    constructor
    · rintro (⟨-, he⟩ | ⟨-, hb⟩)
      · exact absurd he (hout' id o x)
      · exact hb
    · intro hb
      refine .inr ⟨?_, hb⟩
      rintro rfl
      exact hout id o x (hpc.symm.trans hb)
  cases move hs with
  | invoke hpc | ret hpc =>
    refine ⟨f, houtside hpc ?_ ?_ _⟩ <;> exact fun _ _ _ => nofun
  | acquire hpc hi => exact ⟨f, h.setOwner (outside_of hpc fun _ _ _ => nofun) (.inl hi)⟩
  | backOff hpc hi | release hpc hi =>
    exact ⟨f, h.setOwner (outside_of hpc fun _ _ _ => nofun) (.inr hi)⟩
  | enter hpc hown => exact ⟨f, h.enter (outside_of hpc fun _ _ _ => nofun) hown⟩
  | act hpc hb => exact ⟨f, h.act hpc hb⟩
  | commit hpc hb => exact ⟨_, h.commit hpc hb⟩

/-! ## The history -/

/-- The call of a thread that is in one. -/
def Pc.call? : Pc Op Loc Res → Option (ℕ × Op)
  | .idle => none
  | .locking id o | .body id o _ | .unlocking id o _ => some (id, o)

/-- The body of the call has not ended. -/
def Pc.Pending : Pc Op Loc Res → Prop
  | .locking _ _ | .body _ _ _ => True
  | .idle | .unlocking _ _ _ => False

/-- The calls are in one order, which is that of the returns and the calls made after them. -/
structure Ordered (history : List (Event Op Res)) (order : List (Call Op Res)) : Prop where
  invoked : ∀ c ∈ order, history[c.id]? = some (Event.invoke c.op)
  nodup : (order.map Call.id).Nodup
  returned : ∀ (p id : ℕ) (r : Res), history[p]? = some (Event.ret id r) →
    ∃ o, Call.mk id o r ∈ order
  realTime : order.Pairwise fun c d => ∀ (p : ℕ) (r : Res),
    history[p]? = some (Event.ret d.id r) → c.id < p

/-- What holds of the calls that have not returned. -/
structure HistoryOk (s : State ι α Op Loc Res) : Prop where
  ordered : Ordered s.history s.order
  invoked : ∀ τ id o, (s.pc τ).call? = some (id, o) → s.history[id]? = some (.invoke o)
  distinct : ∀ τ τ' id o o', (s.pc τ).call? = some (id, o) → (s.pc τ').call? = some (id, o') →
    τ = τ'
  pending : ∀ τ id o, (s.pc τ).Pending → (s.pc τ).call? = some (id, o) → ∀ c ∈ s.order, c.id ≠ id
  ended : ∀ τ id o r, s.pc τ = .unlocking id o r → ⟨id, o, r⟩ ∈ s.order

omit [DecidableEq ι] in
theorem historyOk_init (f₀ : ι → α) : HistoryOk (init f₀ : State ι α Op Loc Res) where
  ordered := ⟨by simp [init], by simp [init], by simp [init], by simp [init]⟩
  invoked := by simp [init, Pc.call?]
  distinct := by simp [init, Pc.call?]
  pending := by simp [init, Pc.call?]
  ended := nofun

theorem getElem?_snoc {β : Type*} {l : List β} {e x : β} {p : ℕ} :
    (l ++ [e])[p]? = some x ↔ l[p]? = some x ∨ p = l.length ∧ e = x := by
  rcases lt_trichotomy p l.length with hlt | rfl | hlt
  · rw [List.getElem?_append_left hlt]
    exact ⟨.inl, fun h => h.resolve_right fun he => absurd he.1 hlt.ne⟩
  · simp
  · have h1 : l[p]? = none := List.getElem?_eq_none hlt.le
    have h2 : (l ++ [e])[p]? = none := List.getElem?_eq_none (by simpa using Nat.succ_le_of_lt hlt)
    rw [h1, h2]
    simp [hlt.ne']

/-- An event is added, whose call has ended if it is a return. -/
theorem Ordered.snoc {history : List (Event Op Res)} {order : List (Call Op Res)}
    (h : Ordered history order) {e : Event Op Res}
    (he : ∀ id r, e = .ret id r → ∃ o, Call.mk id o r ∈ order) :
    Ordered (history ++ [e]) order where
  invoked c hc := getElem?_snoc.mpr (.inl (h.invoked c hc))
  nodup := h.nodup
  returned p id r hp := by
    rcases getElem?_snoc.mp hp with hp | ⟨-, hp⟩
    · exact h.returned p id r hp
    · exact he id r hp
  realTime := by
    have hlt : ∀ c ∈ order, c.id < history.length := fun c hc =>
      (List.getElem?_eq_some_iff.mp (h.invoked c hc)).1
    refine h.realTime.imp_of_mem fun {c d} hc _ hcd p r hp => ?_
    rcases getElem?_snoc.mp hp with hp | ⟨rfl, -⟩
    · exact hcd p r hp
    · exact hlt c hc

/-- A call is added, which has not returned. -/
theorem Ordered.commit {history : List (Event Op Res)} {order : List (Call Op Res)}
    (h : Ordered history order) {c : Call Op Res} (hinv : history[c.id]? = some (.invoke c.op))
    (hnew : ∀ d ∈ order, d.id ≠ c.id) : Ordered history (order ++ [c]) where
  invoked := List.forall_mem_append.mpr ⟨h.invoked, by simpa using hinv⟩
  nodup := by
    rw [List.map_append, List.map_singleton, ← List.concat_eq_append]
    refine h.nodup.concat fun hm => ?_
    obtain ⟨d, hd, he⟩ := List.mem_map.mp hm
    exact hnew d hd he
  returned p id r hp := by
    obtain ⟨o, ho⟩ := h.returned p id r hp
    exact ⟨o, List.mem_append_left _ ho⟩
  realTime := by
    refine List.pairwise_append.mpr ⟨h.realTime, List.pairwise_singleton _ _, ?_⟩
    intro d _ c' hc' p r hp
    obtain rfl := List.mem_singleton.mp hc'
    obtain ⟨o, ho⟩ := h.returned p _ r hp
    exact absurd rfl (hnew (Call.mk c'.id o r) ho)

omit [DecidableEq ι] in
/-- A thread is at another place, and its call may have ended. -/
theorem HistoryOk.setPc (h : HistoryOk s) {objs : ι → α} {history : List (Event Op Res)}
    {order : List (Call Op Res)} (hord : Ordered history order)
    (hmono : ∀ (p : ℕ) (e : Event Op Res), s.history[p]? = some e → history[p]? = some e)
    (horder : ∀ c, c ∈ s.order → c ∈ order)
    (hended : ∀ c ∈ order, c ∈ s.order ∨ (s.pc τ).call? = some (c.id, c.op))
    (hcall : ∀ id o, pc.call? = some (id, o) → history[id]? = some (.invoke o) ∧
      ∀ τ' o', (s.pc τ').call? = some (id, o') → τ' = τ)
    (hpend : ∀ id o, pc.Pending → pc.call? = some (id, o) → ∀ c ∈ order, c.id ≠ id)
    (hend : ∀ id o r, pc = .unlocking id o r → ⟨id, o, r⟩ ∈ order) :
    HistoryOk (State.setPc
      { s with objs := objs, history := history, order := order } τ pc) := by
  have hcases : ∀ τ', (τ' = τ ∧ (State.setPc
      { s with objs := objs, history := history, order := order } τ pc).pc τ' = pc) ∨
      (τ' ≠ τ ∧ (State.setPc
        { s with objs := objs, history := history, order := order } τ pc).pc τ' = s.pc τ') := by
    intro τ'
    by_cases hτ : τ' = τ
    · exact .inl ⟨hτ, State.setPc_eq_iff.mpr (.inl ⟨hτ, rfl⟩)⟩
    · exact .inr ⟨hτ, State.setPc_eq_iff.mpr (.inr ⟨hτ, rfl⟩)⟩
  refine ⟨hord, fun τ' id o hc => ?_, fun τ₁ τ₂ id o o' h₁ h₂ => ?_, fun τ' id o hp hc c hm => ?_,
    fun τ' id o r he => ?_⟩
  · rcases hcases τ' with ⟨-, he⟩ | ⟨-, he⟩ <;> rw [he] at hc
    · exact (hcall id o hc).1
    · exact hmono _ _ (h.invoked τ' id o hc)
  · rcases hcases τ₁ with ⟨ht₁, he₁⟩ | ⟨-, he₁⟩ <;> rcases hcases τ₂ with ⟨ht₂, he₂⟩ | ⟨-, he₂⟩ <;>
      rw [he₁] at h₁ <;> rw [he₂] at h₂
    · exact ht₁.trans ht₂.symm
    · exact ht₁.trans ((hcall id o h₁).2 τ₂ o' h₂).symm
    · exact ((hcall id o' h₂).2 τ₁ o h₁).trans ht₂.symm
    · exact h.distinct τ₁ τ₂ id o o' h₁ h₂
  · rcases hcases τ' with ⟨-, he⟩ | ⟨hτ, he⟩ <;> rw [he] at hp hc
    · exact hpend id o hp hc c hm
    · rintro rfl
      rcases hended c hm with hm | hm
      · exact h.pending τ' c.id o hp hc c hm rfl
      · exact hτ (h.distinct τ' τ c.id o c.op hc hm)
  · rcases hcases τ' with ⟨-, hpc⟩ | ⟨-, hpc⟩ <;> rw [hpc] at he
    · exact hend id o r he
    · exact horder _ (h.ended τ' id o r he)

omit [DecidableEq ι] in
/-- A thread goes on in its call, whose body has not ended. -/
theorem HistoryOk.stay (h : HistoryOk s) (objs : ι → α) {id : ℕ} {o : Op}
    (hc : (s.pc τ).call? = some (id, o)) (hc' : pc.call? = some (id, o)) (hp : (s.pc τ).Pending)
    (hend : ∀ id o r, pc ≠ .unlocking id o r) :
    HistoryOk (State.setPc { s with objs := objs } τ pc) := by
  refine h.setPc h.ordered (fun _ _ hp => hp) (fun _ hc => hc) (fun _ => .inl)
    (fun id' o' he => ?_) (fun id' o' _ he => ?_) fun id' o' r he => absurd he (hend id' o' r)
  all_goals obtain ⟨rfl, rfl⟩ : id = id' ∧ o = o' := by simpa [hc'] using he
  · exact ⟨h.invoked τ id o hc, fun τ' o' he' => h.distinct τ' τ id o' o he' hc⟩
  · exact h.pending τ id o hp hc

theorem HistoryOk.step (h : HistoryOk s) {l : Label ι Op Env} (hs : G.step s l = some s') :
    HistoryOk s' := by
  -- a thread stays in its call
  have hown : ∀ {τ id o}, (s.pc τ).call? = some (id, o) → s.history[id]? = some (.invoke o) ∧
      ∀ τ' o', (s.pc τ').call? = some (id, o') → τ' = τ := fun {τ id o} hc =>
    ⟨h.invoked τ id o hc, fun τ' o' hc' => h.distinct τ' τ id o' o hc' hc⟩
  cases move hs with
  | acquire | backOff | release => exact ⟨h.ordered, h.invoked, h.distinct, h.pending, h.ended⟩
  | @invoke τ o hpc =>
    refine h.setPc (h.ordered.snoc nofun) (fun p e hp => getElem?_snoc.mpr (.inl hp)) (fun _ => id)
      (fun _ => .inl) (fun id o' hc => ?_) (fun id o' _ hc c hm => ?_) nofun
    all_goals obtain ⟨rfl, rfl⟩ : s.history.length = id ∧ o = o' := by simpa [Pc.call?] using hc
    · refine ⟨getElem?_snoc.mpr (.inr ⟨rfl, rfl⟩), fun τ' o' hc' => ?_⟩
      have hlt := (List.getElem?_eq_some_iff.mp (h.invoked τ' _ o' hc')).1
      exact absurd hlt (lt_irrefl _)
    · exact ((List.getElem?_eq_some_iff.mp (h.ordered.invoked c hm)).1).ne
  | @enter τ id o hpc =>
    exact h.stay s.objs (by rw [hpc]; rfl) rfl (by rw [hpc]; trivial) fun _ _ _ => nofun
  | @act τ id o x y e v hpc =>
    exact h.stay (put s.objs v) (by rw [hpc]; rfl) rfl (by rw [hpc]; trivial) fun _ _ _ => nofun
  | @commit τ id o x e r v hpc =>
    have hc₀ : (s.pc τ).call? = some (id, o) := by rw [hpc]; rfl
    have hnew := h.pending τ id o (by rw [hpc]; trivial) hc₀
    refine h.setPc (h.ordered.commit (h.invoked τ id o hc₀) hnew) (fun _ _ hp => hp)
      (fun c hc => List.mem_append_left _ hc) (fun c hc => ?_) (fun id' o' hc => ?_) nofun
      fun id' o' r' he => ?_
    · rcases List.mem_append.mp hc with hc | hc
      · exact .inl hc
      · obtain rfl := List.mem_singleton.mp hc
        exact .inr hc₀
    · obtain ⟨rfl, rfl⟩ : id = id' ∧ o = o' := by simpa [Pc.call?] using hc
      exact hown hc₀
    · obtain ⟨rfl, rfl, rfl⟩ := Pc.unlocking.inj he
      exact List.mem_append_right _ List.mem_cons_self
  | @ret τ id o r hpc =>
    refine h.setPc (h.ordered.snoc fun id' r' he => ?_) (fun p e hp => getElem?_snoc.mpr (.inl hp))
      (fun _ hc => hc) (fun _ => .inl) nofun nofun nofun
    obtain ⟨rfl, rfl⟩ := Event.ret.inj he
    exact ⟨o, h.ended τ id o r hpc⟩

/-- Only the operations that are called are in the history. -/
theorem invoked_of_reach {P : Op → Prop}
    (h : Reach G.step (fun _ l => ∀ τ o, l = .invoke τ o → P o) (init f₀) s) :
    ∀ o, Event.invoke o ∈ s.history → P o := by
  refine h.invariant (I := fun t => ∀ o, Event.invoke o ∈ t.history → P o) (by simp [init]) ?_
  intro t l t' ht hok hs
  cases move hs with
  | @invoke τ o hpc =>
    refine fun o' ho' => (List.mem_append.mp ho').elim (ht o') fun he => ?_
    obtain rfl : o' = o := by simpa using he
    exact hok τ o' rfl
  | ret => exact fun o' ho' => (List.mem_append.mp ho').elim (ht o') (by simp)
  | acquire | backOff | enter | act | commit | release => exact ht

/-- **Linearizability.** The calls whose bodies have ended are made one after the other, each as
`spec` says, in an order that keeps that of the returns and the later calls; every call that has
returned is one of them, with the result it has returned. The objects nobody has locked are as this
order leaves them. -/
theorem linearizable {spec : Op → (ι → α) → Res → (ι → α) → Prop}
    (hspec : ∀ o f r f', G.Atomic o f r f' → spec o f r f')
    (h : Reach G.step (fun _ _ => True) (init f₀) s) :
    Ordered s.history s.order ∧
      ∃ f, Sequential spec f₀ s.order f ∧ ∀ i, s.owner i = none → s.objs i = f i := by
  have hhist : HistoryOk s := h.invariant (historyOk_init f₀) fun _ _ _ ht _ hs => ht.step hs
  obtain ⟨f, hf⟩ : ∃ f, G.Inv f₀ s f :=
    h.invariant (I := fun t => ∃ f, G.Inv f₀ t f) ⟨f₀, inv_init f₀⟩ fun _ _ _ ht _ hs => by
      obtain ⟨f, hf⟩ := ht
      exact hf.step hs
  refine ⟨hhist.ordered, f, hf.sequential.mono hspec, fun i hi => hf.free i ?_⟩
  intro τ id o x hb hm
  have hown := hf.held τ id o x hb i hm
  rw [hi] at hown
  cases hown

end Guarded

end Outmdsd
