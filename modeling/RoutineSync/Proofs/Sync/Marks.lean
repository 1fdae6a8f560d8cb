import RoutineSync.Proofs.Call.Lines
import RoutineSync.Proofs.Sync.ReadBack
/-!
A call that is written is on one line, and only its texts have marks of block comments in them.
-/
set_option autoImplicit false

namespace RoutineSync

namespace Text

theorem infix_append_cons {l x y : Text} {c : Char} (hc : c ∉ l) (h : l <:+: x ++ c :: y) :
    l <:+: x ∨ l <:+: y := by
  rcases List.infix_append_iff.1 h with h | h | ⟨a, b, rfl, ha, hb⟩
  · exact .inl h
  · rcases List.infix_cons_iff.1 h with h | h
    · cases l with
      | nil => exact .inr List.nil_infix
      | cons d l =>
        obtain ⟨rfl, -⟩ := List.cons_prefix_cons.1 h
        simp at hc
    · exact .inr h
  · cases b with
    | nil => exact .inl (by simpa using ha.isInfix)
    | cons d b =>
      obtain ⟨rfl, -⟩ := List.cons_prefix_cons.1 hb
      simp at hc

def IsMark (l : Text) : Prop := l = ['/', '*'] ∨ l = ['*', '/']

theorem IsMark.mem_iff {l : Text} (h : IsMark l) {c : Char} : c ∈ l ↔ c = '/' ∨ c = '*' := by
  rcases h with rfl | rfl <;> simp [or_comm]

theorem IsMark.not_infix {l x : Text} (h : IsMark l) (hx : '/' ∉ x) : ¬l <:+: x :=
  fun hi => hx (hi.subset (h.mem_iff.2 (.inl rfl)))

end Text

open Text (infix_append_cons)

namespace Value

theorem exists_text_of_infix {v : Value} (h : v.isWritable = true) {l : Text} (hl : l.IsMark)
    (hi : l <:+: v.source) : ∃ cs, v = .text cs ∧ l <:+: cs := by
  have hnumeral : ∀ x : Text, (∀ c ∈ x, Literal.IsNumeral c) → '/' ∉ x := by
    intro x hx hslash
    exact (hx _ hslash).solid.not_slash rfl
  have hread := literal?_source h (.inl rfl) []
  cases v with
  | float x => exact (hl.not_infix (hnumeral _ (Literal.isNumeral_float? hread)) hi).elim
  | int n => exact (hl.not_infix (hnumeral _ (Literal.isNumeral_int? hread)) hi).elim
  | bool b => exact (hl.not_infix (by cases b <;> decide) hi).elim
  | text cs =>
    have hquote : '"' ∉ l := by simp [hl.mem_iff]
    refine ⟨cs, rfl, ?_⟩
    rcases infix_append_cons (x := []) hquote hi with hi | hi
    · exact (hl.not_infix (by simp) hi).elim
    · rcases infix_append_cons hquote hi with hi | hi
      · exact hi
      · exact (hl.not_infix (by simp) hi).elim

end Value

namespace CallShape
variable {es : List (Param × Value)}

theorem exists_of_infix_argumentsMatch {first : Bool} {l : Text} (hl : l.IsMark)
    (h : l <:+: (argumentsMatch first es).text) : ∃ e ∈ es, l <:+: e.2.source := by
  induction es generalizing first with
  | nil => exact (hl.not_infix (by simp [argumentsMatch]) h).elim
  | cons e es ih =>
    obtain ⟨d, r, hd, hends⟩ := exists_ends es []
    rw [List.append_nil] at hd
    have hdl : d ∉ l := by
      rcases hends with rfl | rfl <;> simp [hl.mem_iff]
    have htext : (argumentsMatch first (e :: es)).text
        = (if first then [] else [',', ' ']) ++ e.2.source ++ d :: r := by
      rw [List.append_assoc, ← hd]
      rfl
    rw [htext] at h
    rcases infix_append_cons hdl h with h | h
    · refine ⟨e, List.mem_cons_self, ?_⟩
      cases first with
      | true => exact h
      | false =>
        rcases infix_append_cons (x := [',']) (c := ' ') (by simp [hl.mem_iff]) h with h | h
        · exact (hl.not_infix (by simp) h).elim
        · exact h
    · obtain ⟨f, hf, hi⟩ := @ih false (by rw [hd]; exact h.trans (List.suffix_cons d r).isInfix)
      exact ⟨f, List.mem_cons_of_mem _ hf, hi⟩

theorem unbroken_argumentsMatch {first : Bool} (hs : ∀ e ∈ es, Sound e) :
    '\n' ∉ (argumentsMatch first es).text := by
  induction es generalizing first with
  | nil => simp [argumentsMatch]
  | cons e es ih =>
    rw [List.forall_mem_cons] at hs
    have hsource : '\n' ∉ e.2.source := by
      have hread := Value.literal?_source hs.1.writable (.inl rfl) []
      rw [hs.1.type_eq] at hread
      exact (Piece.inline_literal e.1).unbroken _ ⟨_, _, hread⟩
    have honward := @ih false hs.2
    cases first <;> simp [argumentsMatch, CallMatch.afterArgument, hsource, honward]

end CallShape

namespace Action
open CallShape
variable {a : Action}

theorem unbroken_found (h : a.Writable) : '\n' ∉ a.found.text := by
  have harguments := @unbroken_argumentsMatch _ true fun e he => sound_of_mem_filled h he
  have hname : '\n' ∉ a.kind.callName.toList := by cases a.kind <;> decide
  rw [text_found]
  simp [harguments, hname]

theorem exists_text_of_infix_found (h : a.Writable) {l : Text} (hl : l.IsMark)
    (hi : l <:+: a.found.text) : ∃ cs ∈ a.texts, l <:+: cs := by
  have hhead : '/' ∉ "auton".toList ++ ("::".toList ++ a.kind.callName.toList) := by
    cases a.kind <;> decide
  have hdefault : ∀ kind ∈ ActionKind.all, ∀ p ∈ (standard kind).params, ∀ v ∈ p.default,
      v.text? = none := by decide +kernel
  have htext : a.found.text = "auton".toList ++ ("::".toList ++ a.kind.callName.toList) ++ '(' ::
      (argumentsMatch true (CallShape.filled a.params (standard a.kind).params)).text := by
    simp [text_found]
  rw [htext] at hi
  rcases infix_append_cons (by simp [hl.mem_iff]) hi with hi | hi
  · exact (hl.not_infix hhead hi).elim
  · obtain ⟨e, he, hi⟩ := exists_of_infix_argumentsMatch hl hi
    obtain ⟨cs, hcs, hi⟩ := Value.exists_text_of_infix (sound_of_mem_filled h he).writable hl hi
    obtain ⟨hp, hv⟩ := value_of_mem_filled he
    rw [hcs] at hv
    rcases Option.or_eq_some_iff.1 hv with hv | ⟨-, hv⟩
    · exact ⟨cs, List.mem_filterMap.2 ⟨_, NameMap.mem_of_get? hv, rfl⟩, hi⟩
    · exact absurd (hdefault a.kind (ActionKind.mem_all _) e.1 hp _ hv) nofun

end Action

end RoutineSync
