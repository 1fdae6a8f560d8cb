import RoutineSync.Text.Basic
/-!
Hexadecimal digits, read in either case and written in lower case.
-/
set_option autoImplicit false

namespace RoutineSync.Text

def hexDigit? (c : Char) : Option Nat :=
  if '0' ≤ c ∧ c ≤ '9' then some (c.toNat - 48)
  else if 'a' ≤ c ∧ c ≤ 'f' then some (c.toNat - 87)
  else if 'A' ≤ c ∧ c ≤ 'F' then some (c.toNat - 55)
  else none

theorem hexDigit?_digitChar : ∀ d < 16, hexDigit? (Nat.digitChar d) = some d := by decide

def hexValue? (t : Text) : Option Nat :=
  (t.mapM hexDigit?).map fun ds => ds.foldl (fun n d => 16 * n + d) 0

theorem hexValue?_append_one {t : Text} {c : Char} {n d : Nat} (ht : hexValue? t = some n)
    (hc : hexDigit? c = some d) : hexValue? (t ++ [c]) = some (16 * n + d) := by
  obtain ⟨ds, hd, rfl⟩ := Option.map_eq_some_iff.1 ht
  simp [hexValue?, List.mapM_append, hd, hc]

def leadingHex? (count : Nat) (t : Text) : Option (Nat × Text) :=
  if count ≤ t.length then (hexValue? (t.take count)).map fun n => (n, t.drop count) else none

/-- The lowest `count` hexadecimal digits of a number. -/
def hexText : Nat → Nat → Text
  | 0, _ => []
  | count + 1, n => hexText count (n / 16) ++ [Nat.digitChar (n % 16)]

@[simp] theorem length_hexText (count n : Nat) : (hexText count n).length = count := by
  induction count generalizing n with
  | zero => rfl
  | succ k ih => simp [hexText, ih]

theorem exists_digitChar_of_mem {count n : Nat} {c : Char} (h : c ∈ hexText count n) :
    ∃ d < 16, c = Nat.digitChar d := by
  induction count generalizing n with
  | zero => simp [hexText] at h
  | succ k ih =>
    rcases List.mem_append.1 h with h | h
    · exact ih h
    · exact ⟨n % 16, Nat.mod_lt n (by omega), List.mem_singleton.1 h⟩

theorem hexValue?_hexText (count n : Nat) :
    hexValue? (hexText count n) = some (n % Nat.pow 16 count) := by
  induction count generalizing n with
  | zero => simp [hexText, hexValue?, Nat.mod_one]
  | succ k ih =>
    rw [hexText, hexValue?_append_one (ih _) (hexDigit?_digitChar _ (Nat.mod_lt _ (by omega)))]
    have h := Nat.mod_mul (x := n) (a := 16) (b := Nat.pow 16 k)
    have hp : Nat.pow 16 (k + 1) = 16 * Nat.pow 16 k := by simp [Nat.pow_succ, Nat.mul_comm]
    rw [hp, h, Nat.add_comm]

end RoutineSync.Text
