import RoutineSync.Operations
import RoutineSync.Proofs.Text.Edits
/-!
Operations that do what the plain ones do, as long as they are asked for what is there. What is built
on them then runs as it does on the plain ones.
-/
set_option autoImplicit false

namespace RoutineSync

/-! Computations in a monad next to those that need none. -/

section
variable {m : Type → Type} [Monad m] {α β ε δ σ : Type}

/-- The computation gives what the plain one gives, and does nothing else. -/
def Follows (x : m α) (y : Id α) : Prop := x = pure y.run

namespace Follows

theorem pure (a : α) : Follows (pure a : m α) (pure a) := rfl

theorem throw (e : ε) : Follows (throw e : ExceptT ε m α).run (throw e : ExceptT ε Id α).run := rfl

theorem ofExcept (x : Except ε α) :
    Follows (liftM x : ExceptT ε m α).run (liftM x : ExceptT ε Id α).run := rfl

theorem ite {p : Prop} [Decidable p] {x x' : m α} {y y' : Id α} (hp : p → Follows x y)
    (hn : ¬p → Follows x' y') :
    Follows (if p then x else x') (if p then y else y') := by
  split
  · exact hp ‹_›
  · exact hn ‹_›

theorem run_eq {x y : Id α} (h : Follows x y) : x.run = y.run := congrArg Id.run h

variable [LawfulMonad m]

theorem step {x : m α} {y : Id α} {f : α → m β} {z : Id β} (hx : Follows x y)
    (hf : Follows (f y.run) z) : Follows (x >>= f) z := by
  rw [Follows, hx, pure_bind]
  exact hf

theorem bind {x : m α} {y : Id α} {f : α → m β} {g : α → Id β} (hx : Follows x y)
    (hf : Follows (f y.run) (g y.run)) : Follows (x >>= f) (y >>= g) := hx.step hf

theorem mapM {f : α → m β} {g : α → Id β} {xs : List α} (h : ∀ a ∈ xs, Follows (f a) (g a)) :
    Follows (xs.mapM f) (xs.mapM g) := by
  induction xs with
  | nil => rfl
  | cons a xs ih =>
    obtain ⟨ha, hxs⟩ := List.forall_mem_cons.1 h
    rw [List.mapM_cons, List.mapM_cons]
    exact ha.bind ((ih hxs).bind (.pure _))

theorem filterMapM {f : α → m (Option β)} {g : α → Id (Option β)} {xs : List α}
    (h : ∀ a ∈ xs, Follows (f a) (g a)) : Follows (xs.filterMapM f) (xs.filterMapM g) := by
  induction xs with
  | nil => rfl
  | cons a xs ih =>
    obtain ⟨ha, hxs⟩ := List.forall_mem_cons.1 h
    rw [List.filterMapM_cons, List.filterMapM_cons]
    refine ha.bind ?_
    cases (g a).run with
    | none => exact ih hxs
    | some b => exact (ih hxs).bind (.pure _)

/-! Computations that can fail. -/

theorem lift {x : m α} {y : Id α} (h : Follows x y) :
    Follows (ExceptT.lift x : ExceptT ε m α).run (ExceptT.lift y : ExceptT ε Id α).run := by
  rw [Follows] at h
  rw [Follows, h, ExceptT.lift, ExceptT.run_mk, map_pure]
  rfl

theorem adapt {f : ε → δ} {x : ExceptT ε m α} {y : ExceptT ε Id α} (h : Follows x.run y.run) :
    Follows (ExceptT.adapt f x).run (ExceptT.adapt f y).run := by
  rw [Follows] at h
  rw [Follows, ExceptT.run_adapt, h, map_pure]
  rfl

theorem andThen {x : ExceptT ε m α} {y : ExceptT ε Id α} {f : α → ExceptT ε m β}
    {g : α → ExceptT ε Id β} (hx : Follows x.run y.run)
    (hf : ∀ a, y.run.run = .ok a → Follows (f a).run (g a).run) :
    Follows (x >>= f).run (y >>= g).run := by
  rw [Follows, ExceptT.run_bind, hx, pure_bind, ExceptT.run_bind, Id.run_bind]
  cases hy : y.run.run with
  | error e => rfl
  | ok a => exact hf a hy

theorem mapM_except {f : α → ExceptT ε m β} {g : α → ExceptT ε Id β} {xs : List α}
    (h : ∀ a ∈ xs, Follows (f a).run (g a).run) : Follows (xs.mapM f).run (xs.mapM g).run := by
  induction xs with
  | nil => rfl
  | cons a xs ih =>
    obtain ⟨ha, hxs⟩ := List.forall_mem_cons.1 h
    rw [List.mapM_cons, List.mapM_cons]
    exact ha.andThen fun b _ => (ih hxs).andThen fun bs _ => .pure _

theorem filterMapM_except {f : α → ExceptT ε m (Option β)} {g : α → ExceptT ε Id (Option β)}
    {xs : List α} (h : ∀ a ∈ xs, Follows (f a).run (g a).run) :
    Follows (xs.filterMapM f).run (xs.filterMapM g).run := by
  induction xs with
  | nil => rfl
  | cons a xs ih =>
    obtain ⟨ha, hxs⟩ := List.forall_mem_cons.1 h
    rw [List.filterMapM_cons, List.filterMapM_cons]
    refine ha.andThen fun b _ => ?_
    cases b with
    | none => exact ih hxs
    | some b => exact (ih hxs).andThen fun bs _ => .pure _

/-! Computations over a state. -/

theorem lift_state {x : m α} {y : Id α} (h : Follows x y) (s : σ) :
    Follows ((StateT.lift x : StateT σ m α).run s) ((StateT.lift y : StateT σ Id α).run s) :=
  h.bind (.pure _)

theorem after {x : StateT σ m α} {y : StateT σ Id α} {f : α → StateT σ m β}
    {g : α → StateT σ Id β} {s : σ} (hx : Follows (x.run s) (y.run s))
    (hf : ∀ a s', (y.run s).run = (a, s') → Follows ((f a).run s') ((g a).run s')) :
    Follows ((x >>= f).run s) ((y >>= g).run s) := by
  rw [StateT.run_bind, StateT.run_bind]
  exact hx.bind (hf _ _ rfl)

theorem mapM_state {f : α → StateT σ m β} {g : α → StateT σ Id β} {xs : List α}
    (h : ∀ a ∈ xs, ∀ s, Follows ((f a).run s) ((g a).run s)) (s : σ) :
    Follows ((xs.mapM f).run s) ((xs.mapM g).run s) := by
  induction xs generalizing s with
  | nil => rfl
  | cons a xs ih =>
    obtain ⟨ha, hxs⟩ := List.forall_mem_cons.1 h
    rw [List.mapM_cons, List.mapM_cons]
    exact (ha s).after fun b s' _ => (ih hxs s').after fun bs s'' _ => .pure _

end Follows

end

variable {m : Type → Type} [Monad m]

/-- What is told at the places of a text is what counting its newlines finds. -/
structure Access.Reads (r : Access m) (t : Text) : Prop where
  size_eq : r.size = t.size
  slice {i j : Nat} : t.isPlace i = true → t.isPlace j = true → i ≤ j →
    Follows (r.slice i j) (pure (t.slice i j))
  lineStart {n : Nat} : t.isPlace n = true →
    Follows (r.lineStart n) (pure ((Source.byCount t).lineStart n))
  lineEnd {n : Nat} : t.isPlace n = true →
    Follows (r.lineEnd n) (pure ((Source.byCount t).lineEnd n))

namespace Operations

/-- As long as they are asked for what is there, the operations do what the plain ones do. -/
structure Faithful (o : Operations m) : Prop where
  sub {a b : Nat} : b ≤ a → Follows (o.sub a b) (plain.sub a b)
  move {place : Nat} {delta : Int} : 0 ≤ place + delta → place + delta ≤ maxPlace →
    Follows (o.move place delta) (plain.move place delta)
  get? {α : Type} {xs : List α} {i : Nat} : i < xs.length →
    Follows (o.get? xs i) (plain.get? xs i)
  rest {α : Type} {xs : List α} {i : Nat} : i ≤ xs.length → Follows (o.rest xs i) (plain.rest xs i)
  range {α : Type} {xs : List α} {i n : Nat} : i + n ≤ xs.length →
    Follows (o.range xs i n) (plain.range xs i n)
  splice {α : Type} {s : Splice α} {xs : List α} : s.Fits xs →
    Follows (o.splice s xs) (plain.splice s xs)
  fits (c : TextChange) (t : Text) : Follows (o.fits c t) (plain.fits c t)
  change {c : TextChange} {t : Text} : c.fits t = true →
    Follows (o.change c t) (plain.change c t)
  replace {e : TextEdit} {t : Text} : e.toChange.fits t = true → e.range.start ≤ e.range.stop →
    Follows (o.replace e t) (plain.replace e t)
  applyAll {es : List TextEdit} {t : Text} : TextEdit.Fit 0 es t →
    Follows (o.applyAll es t) (plain.applyAll es t)
  access (t : Text) : (o.access t).Reads t

theorem faithful_plain : plain.Faithful where
  sub _ := rfl
  move _ _ := rfl
  get? _ := rfl
  rest _ := rfl
  range _ := rfl
  splice _ := rfl
  fits _ _ := rfl
  change _ := rfl
  replace _ _ := rfl
  applyAll _ := rfl
  access _ := ⟨rfl, fun _ _ _ => rfl, fun _ => rfl, fun _ => rfl⟩

end Operations

end RoutineSync
