import RoutineSync.Action.Step
import RoutineSync.Text.Hex
/-!
The text of an identity: 32 hexadecimal digits in five groups with hyphens between them. Read are
also digits without hyphens, groups in braces, and groups behind `urn:uuid:` in small or capital
letters.
-/
set_option autoImplicit false

namespace RoutineSync.Wire

/-- Lengths of the groups that have a hyphen behind them. -/
def groups : List Nat := [8, 4, 4, 4]

def hyphenate : List Nat → Text → Text
  | [], t => t
  | n :: ns, t => t.take n ++ '-' :: hyphenate ns (t.drop n)

@[simp] theorem length_hyphenate (ns : List Nat) (t : Text) :
    (hyphenate ns t).length = t.length + ns.length := by
  induction ns generalizing t with
  | nil => rfl
  | cons n ns ih => simp [hyphenate, ih]; omega

/-- Takes the hyphens out; none unless each group has one behind it. -/
def unhyphenate? : List Nat → Text → Option Text
  | [], t => some t
  | n :: ns, t =>
    match t.drop n with
    | '-' :: r => (unhyphenate? ns r).map (t.take n ++ ·)
    | _ => none

theorem unhyphenate?_hyphenate {ns : List Nat} {t : Text} (h : ns.foldr (· + ·) 0 ≤ t.length) :
    unhyphenate? ns (hyphenate ns t) = some t := by
  induction ns generalizing t with
  | nil => rfl
  | cons n ns ih =>
    simp only [List.foldr_cons] at h
    have hl : (t.take n).length = n := by simp; omega
    simp [hyphenate, unhyphenate?, List.drop_left' hl, List.take_left' hl,
      ih (t := t.drop n) (by simp; omega)]

def idText (id : ActionId) : Text := hyphenate groups (Text.hexText 32 id.bits.toNat)

def idOfDigits? (t : Text) : Option ActionId :=
  if t.length = 32 then (Text.hexValue? t).map fun n => ⟨BitVec.ofNat 128 n⟩ else none

theorem idOfDigits?_hexText (id : ActionId) :
    idOfDigits? (Text.hexText 32 id.bits.toNat) = some id := by
  have h : id.bits.toNat % Nat.pow 16 32 = id.bits.toNat := Nat.mod_eq_of_lt id.bits.isLt
  simp [idOfDigits?, Text.hexValue?_hexText, h]

def unbrace? : Text → Option Text
  | '\x7b' :: r => if r.getLast? = some '\x7d' then some r.dropLast else none
  | _ => none

def unlabel? (t : Text) : Option Text :=
  if (t.take 9).map Char.toLower = "urn:uuid:".toList then some (t.drop 9) else none

def idOfText? (t : Text) : Option ActionId :=
  (idOfDigits? t).orElse fun _ => do
    let t := ((unbrace? t).orElse fun _ => unlabel? t).getD t
    idOfDigits? (← unhyphenate? groups t)

theorem idOfText?_idText (id : ActionId) : idOfText? (idText id) = some id := by
  have hd : idOfDigits? (idText id) = none := by simp [idOfDigits?, idText, groups]
  have hh : unhyphenate? groups (idText id) = some (Text.hexText 32 id.bits.toNat) :=
    unhyphenate?_hyphenate (by simp [groups])
  obtain ⟨c, s, hs⟩ : ∃ c s, Text.hexText 32 id.bits.toNat = c :: s :=
    List.exists_cons_of_length_eq_add_one (Text.length_hexText 32 _)
  obtain ⟨d, hd16, rfl⟩ := Text.exists_digitChar_of_mem (hs ▸ List.mem_cons_self)
  have hc : ∀ d < 16, Nat.digitChar d ≠ '\x7b' ∧ (Nat.digitChar d).toLower ≠ 'u' := by decide
  obtain ⟨r, hr⟩ : ∃ r, idText id = Nat.digitChar d :: r := by
    simp [idText, hs, groups, hyphenate]
  have hb : unbrace? (idText id) = none := by
    rw [hr]; unfold unbrace?; split
    · rename_i h; exact absurd (List.cons.inj h).1 (hc d hd16).1
    · rfl
  have hu : unlabel? (idText id) = none := by
    simp [hr, unlabel?, (hc d hd16).2]
  unfold idOfText?
  rw [hd, hb, hu]
  simp [hh, idOfDigits?_hexText]

end RoutineSync.Wire
