/-!
Computations that can fail, peeled apart: when one that is made of parts succeeds.
-/
set_option autoImplicit false

namespace RoutineSync.Result
variable {ε δ α β : Type}

instance decidableEqExcept [DecidableEq ε] [DecidableEq α] : DecidableEq (Except ε α)
  | .ok a, .ok b => decidable_of_iff (a = b) ⟨congrArg _, Except.ok.inj⟩
  | .error d, .error e => decidable_of_iff (d = e) ⟨congrArg _, Except.error.inj⟩
  | .ok _, .error _ => isFalse nofun
  | .error _, .ok _ => isFalse nofun

theorem bind_eq_ok_iff {x : Except ε α} {f : α → Except ε β} {b : β} :
    (x >>= f) = .ok b ↔ ∃ a, x = .ok a ∧ f a = .ok b := by
  cases x <;> simp [bind, Except.bind]

theorem exists_bind_eq_ok_iff {x : Except ε α} {f : α → Except ε β} :
    (∃ b, (x >>= f) = .ok b) ↔ ∃ a, x = .ok a ∧ ∃ b, f a = .ok b := by
  cases x <;> simp [bind, Except.bind]

theorem exists_check_eq_ok_iff {x : Except ε Unit} {f : Unit → Except ε β} :
    (∃ b, (x >>= f) = .ok b) ↔ x = .ok () ∧ ∃ b, f () = .ok b := by
  cases x <;> simp [bind, Except.bind]

theorem check_eq_ok_iff {x : Except ε Unit} {f : Unit → Except ε β} {b : β} :
    (x >>= f) = .ok b ↔ x = .ok () ∧ f () = .ok b := by
  cases x <;> simp [bind, Except.bind]

theorem pure_eq_ok_iff {a b : α} : (pure a : Except ε α) = .ok b ↔ a = b := by
  simp [pure, Except.pure]

theorem throw_ne_ok {e : ε} {b : α} : (throw e : Except ε α) ≠ .ok b := nofun

theorem mapError_eq_ok_iff {f : ε → δ} {x : Except ε α} {a : α} :
    x.mapError f = .ok a ↔ x = .ok a := by
  cases x with
  | error e => exact ⟨nofun, nofun⟩
  | ok b => exact ⟨fun h => congrArg _ (Except.ok.inj h), fun h => congrArg _ (Except.ok.inj h)⟩

theorem toOption_eq_some_iff {x : Except ε α} {a : α} : x.toOption = some a ↔ x = .ok a := by
  cases x <;> simp [Except.toOption]

theorem map_eq_ok_iff {f : α → β} {x : Except ε α} {b : β} :
    x.map f = .ok b ↔ ∃ a, x = .ok a ∧ f a = b := by
  cases x <;> simp [Except.map]

/-! The same of computations that could do more than fail, where they do not. -/

theorem run_bind (x : ExceptT ε Id α) (f : α → ExceptT ε Id β) :
    (x >>= f).run.run = x.run.run >>= fun a => (f a).run.run := by
  rw [ExceptT.run_bind, Id.run_bind]
  cases x.run.run <;> rfl

theorem run_bind_lift {m : Type → Type} [Monad m] [LawfulMonad m] {ε α β : Type} (x : m α)
    (f : α → ExceptT ε m β) :
    ((liftM x : ExceptT ε m α) >>= f).run = x >>= fun a => (f a).run := by
  rw [ExceptT.run_bind]
  show (Except.ok <$> x) >>= _ = _
  rw [bind_map_left]

theorem run_bind_eq_ok_iff {x : ExceptT ε Id α} {f : α → ExceptT ε Id β} {b : β} :
    (x >>= f).run.run = .ok b ↔ ∃ a, x.run.run = .ok a ∧ (f a).run.run = .ok b := by
  rw [run_bind, bind_eq_ok_iff]

theorem run_mapM (f : α → ExceptT ε Id β) (xs : List α) :
    (xs.mapM f).run.run = xs.mapM fun a => (f a).run.run := by
  induction xs with
  | nil => rfl
  | cons a xs ih =>
    rw [List.mapM_cons, List.mapM_cons, run_bind, ← ih]
    refine bind_congr fun b => ?_
    rw [run_bind]
    rfl

theorem run_filterMapM (f : α → ExceptT ε Id (Option β)) (xs : List α) :
    (xs.filterMapM f).run.run = xs.filterMapM fun a => (f a).run.run := by
  induction xs with
  | nil => rfl
  | cons a xs ih =>
    rw [List.filterMapM_cons, List.filterMapM_cons, run_bind]
    refine bind_congr fun b => ?_
    cases b with
    | none => exact ih
    | some b =>
      rw [← ih, run_bind]
      rfl

theorem idRun_filterMapM (f : α → Id (Option β)) (xs : List α) :
    (xs.filterMapM f).run = xs.filterMap fun a => (f a).run := by
  induction xs with
  | nil => rfl
  | cons a xs ih =>
    rw [List.filterMapM_cons, List.filterMap_cons, ← ih]
    show (match (f a).run with | none => _ | some b => _ : Id (List β)).run = _
    cases (f a).run <;> rfl

end RoutineSync.Result
