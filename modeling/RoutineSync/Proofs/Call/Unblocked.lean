import RoutineSync.Proofs.Call.Regular
import RoutineSync.Proofs.Scan.Reworded
import RoutineSync.Proofs.Text.Openings
/-!
Calls without block comments between their tokens. Such a call is read in one way, whatever comes
behind it, and it stays one with other literals. Calls that are written are of this sort.
-/
set_option autoImplicit false

namespace RoutineSync

namespace Literal

/-- What can stand right behind a literal. -/
def Behind (c : Char) : Prop := Text.isBlank c = true ∨ c = '/' ∨ Ends c

theorem Behind.not_word {c : Char} (h : Behind c) : Text.isWord c = false := by
  rcases h with h | rfl | rfl | rfl
  · exact Text.isWord_of_isBlank h
  all_goals decide

theorem IsNumber.head?_ne {n : Text} (h : IsNumber n) {c : Char} (hc : Ends c) (r : Text) :
    (n ++ r).head? ≠ some c := by
  cases h with
  | whole hw => exact hw.head?_ne hc.not_digit r
  | point hw _ =>
    rw [List.append_assoc]
    exact hw.head?_ne hc.not_digit _
  | fraction _ => rcases hc with rfl | rfl <;> exact fun h => absurd (Option.some.inj h) (by decide)

theorem head?_ne_of_isLiteral {type : ValueType} {l : Text} (h : type.IsLiteral l) {c : Char}
    (hc : Ends c) : l.head? ≠ some c := by
  have hsign : ∀ {sign x : Text}, sign ∈ [[], ['-']] → x.head? ≠ some c → (sign ++ x).head? ≠ some c := by
    intro sign x hsign hx
    rcases List.mem_pair.1 hsign with rfl | rfl
    · exact hx
    · rcases hc with rfl | rfl <;> exact fun h => absurd (Option.some.inj h) (by decide)
  cases h with
  | float hs hn _ =>
    rw [List.append_assoc]
    exact hsign hs (hn.head?_ne hc _)
  | @int sign whole hs hw =>
    refine hsign hs ?_
    have := hw.head?_ne hc.not_digit []
    rwa [List.append_nil] at this
  | bool hw =>
    have hall : ∀ w ∈ ["true".toList, "false".toList, "1".toList, "0".toList],
        w.head? ≠ some ',' ∧ w.head? ≠ some ')' := by decide
    rcases hc with rfl | rfl
    · exact (hall _ hw).1
    · exact (hall _ hw).2
  | text _ => rcases hc with rfl | rfl <;> exact fun h => absurd (Option.some.inj h) (by decide)

theorem not_behind_of_isLiteral {p : Param} {l : Text} (h : p.type.IsLiteral l) {c : Char}
    (hc : l.head? = some c) : ¬Behind c := by
  obtain ⟨d, r, rfl, hd⟩ := (Piece.quiet_literal p).solid l (Piece.accepts_of_spells (p := .literal p) h)
  obtain rfl := Option.some.inj hc
  rintro (hblank | rfl | hends)
  · exact Bool.false_ne_true (hd.not_blank.symm.trans hblank)
  · exact hd.not_slash rfl
  · exact head?_ne_of_isLiteral h hends rfl

end Literal

namespace Gap

theorem Unblocked.endsWord {g : Text} (h : Unblocked g) : g.endsWord = true := by
  have hcons : ∀ {c : Char} {g : Text}, Text.isWord c = false → g.endsWord = true →
      Text.endsWord (c :: g) = true := by
    intro c g hc hg
    cases g with
    | nil => simp [Text.endsWord, hc]
    | cons d g => rwa [← List.singleton_append, Text.endsWord_append (List.cons_ne_nil d g)]
  induction h with
  | nil => rfl
  | blank hc _ ih => exact hcons (Text.isWord_of_isBlank hc) ih
  | @line b g _ _ ih =>
    rw [← List.cons_append, ← List.cons_append, Text.endsWord_append (List.cons_ne_nil _ _)]
    exact hcons (by decide) ih

theorem Unblocked.exists_append_cons {g : Text} (h : Unblocked g) {c : Char} (hc : Literal.Behind c)
    (r : Text) : ∃ d x, g ++ c :: r = d :: x ∧ Literal.Behind d := by
  cases h with
  | nil => exact ⟨c, r, rfl, hc⟩
  | blank hd _ => exact ⟨_, _, rfl, .inl hd⟩
  | line _ _ => exact ⟨_, _, rfl, .inr (.inl rfl)⟩

end Gap

namespace CallMatch

/-- The literals of a call that stands behind some text stand apart: a word can start before each of
them, and what comes behind it ends it and starts no other one. -/
def Spaced (lead : Text) (m : CallMatch) : Prop :=
  ∀ a ∈ m.args, ∃ (x : Text) (c : Char) (y : Text), m.text = x ++ a.onward ∧
    a.onward = a.literal ++ c :: y ∧ (lead ++ x).endsWord = true ∧ Literal.Behind c ∧
    ∀ d, a.literal.head? = some d → ¬Literal.Behind d

theorem Spaced.after {lead x : Text} {m : CallMatch} (h : Spaced (lead ++ x) m) : Spaced lead (m.after x) := by
  intro a ha
  obtain ⟨z, c, y, htext, honward, hend, hc⟩ := h a ha
  exact ⟨x ++ z, c, y, by rw [text_after, htext, List.append_assoc], honward,
    by rwa [← List.append_assoc], hc⟩

end CallMatch

namespace Grammar
open CallMatch (Reworded)
variable {gap gap' : Text → Prop} {g : Grammar} {m : CallMatch}

theorem DerivesWith.mono (h : g.DerivesWith gap m) (hgap : ∀ x, gap x → gap' x) :
    g.DerivesWith gap' m := by
  induction h with
  | done => exact .done
  | piece hx ha _ ih => exact .piece (hgap _ hx) ha ih
  | first _ ih => exact .first ih
  | second _ ih => exact .second ih

/-- With other literals a call has the same gaps. -/
theorem DerivesWith.reworded (h : g.DerivesWith gap m) {f : Param → Option Text}
    (hf : ∀ a ∈ m.args, ∀ l, f a.param = some l → a.param.type.IsLiteral l) :
    ∃ n, g.DerivesWith gap n ∧ Reworded f m n := by
  induction h with
  | done => exact ⟨.empty, .done, .bare []⟩
  | @piece p g x a m hx ha _ ih =>
    obtain ⟨n, hn, hr⟩ := ih fun b hb => hf b (Piece.mem_args_before a hb)
    obtain ⟨b, hb, hpiece⟩ := Piece.exists_reworded ha hr hf
    exact ⟨_, .piece hx hb hn, hpiece.after x⟩
  | first _ ih =>
    obtain ⟨n, hn, hr⟩ := ih hf
    exact ⟨n, .first hn, hr⟩
  | second _ ih =>
    obtain ⟨n, hn, hr⟩ := ih hf
    exact ⟨n, .second hn, hr⟩

/-- Without block comments in it a call is read, whatever comes behind it. -/
theorem Steady.read_unblocked (hg : g.Steady) (hfirm : g.Firm) (h : g.DerivesWith Gap.Unblocked m)
    (r : Text) : g.read .stop (m.text ++ r) = some m := by
  induction hg generalizing m with
  | last =>
    cases h with
    | piece hx ha h =>
      rw [read_piece_append hfirm hx.neat ha (h.mono fun _ => Gap.Unblocked.neat)]
      cases h
      rfl
  | piece hq hg ih =>
    cases h with
    | piece hx ha h =>
      rw [read_piece_append hfirm hx.neat ha (h.mono fun _ => Gap.Unblocked.neat),
        ih (fun ps hps => Piece.firm_tail (hfirm _ (.piece hps))) h]
      rfl
  | @either p g k hno _ _ ih1 ih2 =>
    cases h with
    | first h =>
      show ((Grammar.piece p g).read .stop _).or _ = _
      rw [ih1 (fun ps hps => hfirm _ (.first hps)) h]
      rfl
    | second h =>
      have hsecond := ih2 (fun ps hps => hfirm _ (.second hps)) h
      have hfirst : (Grammar.piece p g).read .stop (m.text ++ r) = none := by
        cases h with
        | @piece _ _ x a n hx ha h =>
          obtain rfl : a = [')'] := ha
          have htext : ((((Piece.token [')']).before [')'] n).after x).text) ++ r
              = x ++ ')' :: (n.text ++ r) := by simp [Piece.text_before]
          rw [htext, read, hx.read_append ⟨by decide, by decide⟩, Piece.read, hno]
          rfl
      show ((Grammar.piece p g).read .stop _).or _ = _
      rw [hfirst, hsecond]
      rfl

end Grammar

namespace CallShape
open CallMatch (Reworded)

theorem firm_grammar (s : CallShape) : s.grammar.Firm := by
  intro row hrow
  obtain ⟨row, rfl, hname⟩ := Grammar.row_piece_iff.1 hrow
  obtain ⟨behind, rfl, hbehind⟩ := Grammar.row_piece_iff.1 hname
  exact ⟨⟨_, _, rfl, by decide, by decide⟩, (quiet_name s.kind).solid _ rfl,
    s.firm_behindName behind hbehind⟩

/-- A call of a shape without block comments between its tokens. -/
def Unblocked (s : CallShape) (m : CallMatch) : Prop :=
  ∃ n, m = n.after "auton".toList ∧ s.grammar.DerivesWith Gap.Unblocked n

section
variable {s : CallShape} {m : CallMatch}

theorem Unblocked.match?_append (h : s.Unblocked m) (r : Text) : s.match? (m.text ++ r) = some m := by
  obtain ⟨n, rfl, hn⟩ := h
  rw [CallMatch.text_after, List.append_assoc, match?, opening, Piece.read_token,
    s.steady_grammar.read_unblocked s.firm_grammar hn]
  rfl

theorem Unblocked.tidy (h : s.Unblocked m) : s.Tidy m := by
  obtain ⟨n, rfl, hn⟩ := h
  unfold grammar at hn
  generalize hcolons : "::".toList = w at hn
  cases hn with
  | @piece _ _ x a n hx ha hn =>
    obtain rfl : a = w := ha
    cases hn with
    | @piece _ _ y b n hy hb hn =>
      obtain rfl : b = s.kind.callName.toList := hb
      subst hcolons
      have htidy := Tidy.call hx hy (hn.mono fun _ => Gap.Unblocked.neat)
      simpa [Piece.before] using htidy

theorem unblocked_of_match? {t : Text} (h : s.match? t = some m) (hm : ¬['/', '*'] <:+: m.text) :
    s.Unblocked m := by
  obtain ⟨n, rfl, hn⟩ := derives_of_match? h
  refine ⟨n, rfl, hn.with_gaps fun x hx hfills => hfills.unblocked fun hb => hm (hb.trans (hx.trans ?_))⟩
  exact (List.suffix_append "auton".toList n.text).isInfix

theorem tidy_of_match? {t : Text} (h : s.match? t = some m) (hm : ¬['/', '*'] <:+: m.text) : s.Tidy m :=
  (unblocked_of_match? h hm).tidy

theorem Unblocked.match?_of_ne (h : s.Unblocked m) {s' : CallShape} (hne : s'.kind ≠ s.kind)
    (r : Text) : s'.match? (m.text ++ r) = none := by
  cases h.tidy with
  | call hx hy _ =>
    rw [CallMatch.text_after, List.append_assoc]
    exact CallShape.match?_of_ne hx hy hne _

theorem Unblocked.reworded (h : s.Unblocked m) {f : Param → Option Text}
    (hf : ∀ a ∈ m.args, ∀ l, f a.param = some l → a.param.type.IsLiteral l) :
    ∃ n, s.Unblocked n ∧ Reworded f m n := by
  obtain ⟨m, rfl, hm⟩ := h
  obtain ⟨n, hn, hr⟩ := hm.reworded hf
  exact ⟨_, ⟨n, rfl, hn⟩, hr.after _⟩

end

theorem exists_haltsWord_of_match? {s : CallShape} {t : Text} {m : CallMatch} (h : s.match? t = some m) :
    ∃ y : Text, t = "auton".toList ++ y ∧ y.haltsWord = true := by
  obtain ⟨z, rfl⟩ := prefix_of_match? h
  obtain ⟨n, rfl, hn⟩ := derives_of_match? h
  refine ⟨n.text ++ z, List.append_assoc _ _ _, ?_⟩
  unfold grammar at hn
  generalize hcolons : "::".toList = w at hn
  cases hn with
  | @piece _ _ x a n hx ha hn =>
    obtain rfl : a = w := ha
    subst hcolons
    rw [CallMatch.text_after, Piece.text_before]
    rcases hx.eq_nil_or_cons with rfl | ⟨c, x, rfl, hc⟩
    · show (!Text.isWord ':') = true
      decide
    · show (!Text.isWord c) = true
      rcases hc with hc | rfl
      · rw [Text.isWord_of_isBlank hc]
        rfl
      · decide

theorem exists_cons_of_token {c : Char} {w : Text} {g : Grammar} {m : CallMatch}
    (h : (Grammar.piece (.token (c :: w)) g).DerivesWith Gap.Unblocked m) (hc : Literal.Ends c) :
    ∃ d x, m.text = d :: x ∧ Literal.Behind d := by
  generalize ht : c :: w = t at h
  cases h with
  | @piece _ _ x a n hx ha _ =>
    obtain rfl : a = t := ha
    rw [CallMatch.text_after, Piece.text_before, ← ht]
    exact hx.exists_append_cons (.inr (.inr hc)) (w ++ n.text)

theorem exists_cons_of_arguments {ps : List Param} {m : CallMatch}
    (h : (arguments false ps).DerivesWith Gap.Unblocked m) :
    ∃ d x, m.text = d :: x ∧ Literal.Behind d := by
  cases ps with
  | nil => exact exists_cons_of_token h (.inr rfl)
  | cons p ps =>
    rw [arguments] at h
    split at h
    · cases h with
      | first h => exact exists_cons_of_token h (.inl rfl)
      | second h => exact exists_cons_of_token h (.inr rfl)
    · exact exists_cons_of_token h (.inl rfl)

open CallMatch (Spaced)

theorem spaced_closing {m : CallMatch} (h : closing.DerivesWith Gap.Unblocked m) (lead : Text) :
    Spaced lead m := by
  intro a ha
  rw [args_of_closing (h.mono fun _ => Gap.Unblocked.neat).derives] at ha
  exact absurd ha List.not_mem_nil

theorem spaced_argument {p : Param} {ps : List Param} {m : CallMatch}
    (ih : ∀ {m : CallMatch}, (arguments false ps).DerivesWith Gap.Unblocked m → ∀ lead, Spaced lead m)
    (h : (Grammar.piece (.literal p) (arguments false ps)).DerivesWith Gap.Unblocked m) {lead : Text}
    (hlead : lead.endsWord = true) : Spaced lead m := by
  cases h with
  | @piece _ _ x l n hx hl hn =>
    intro a ha
    rcases List.mem_cons.1 ha with rfl | ha
    · obtain ⟨c, y, hy, hc⟩ := exists_cons_of_arguments hn
      exact ⟨x, c, y, rfl, by rw [← hy], Text.endsWord_append_of hlead hx.endsWord, hc,
        fun _ => Literal.not_behind_of_isLiteral hl⟩
    · exact Spaced.after (Spaced.after (x := l) (ih hn _)) a ha

theorem spaced_arguments {first : Bool} {ps : List Param} {m : CallMatch}
    (h : (arguments first ps).DerivesWith Gap.Unblocked m) (lead : Text)
    (hlead : first = true → lead.endsWord = true) : Spaced lead m := by
  induction ps generalizing first m lead with
  | nil => exact spaced_closing h lead
  | cons p ps ih =>
    have hargument : ∀ {m : CallMatch} {lead : Text}, lead.endsWord = true →
        (Grammar.piece (.literal p) (arguments false ps)).DerivesWith Gap.Unblocked m → Spaced lead m :=
      fun hlead hm => spaced_argument (fun hn lead => ih hn lead fun hf => absurd hf (by decide)) hm hlead
    have hseparated : ∀ {m : CallMatch}, (if first then Grammar.piece (.literal p) (arguments false ps)
        else .piece (.token [',']) (.piece (.literal p) (arguments false ps))).DerivesWith
          Gap.Unblocked m → Spaced lead m := by
      intro m hm
      cases first with
      | true => exact hargument (hlead rfl) hm
      | false =>
        cases hm with
        | @piece _ _ x a n hx ha hn =>
          obtain rfl : a = [','] := ha
          exact .after (.after (hargument (Text.endsWord_append (List.cons_ne_nil _ _)) hn))
    rw [arguments] at h
    split at h
    · cases h with
      | first h => exact hseparated h
      | second h => exact spaced_closing h lead
    · exact hseparated h

/-- A literal of such a call stands apart, behind the start of the call. -/
theorem Unblocked.exists_edges {s : CallShape} {m : CallMatch} (h : s.Unblocked m) {l : Argument}
    (hl : l ∈ m.args) : ∃ (x : Text) (c : Char) (y : Text), m.text = x ++ l.onward ∧
      l.onward = l.literal ++ c :: y ∧ x ≠ [] ∧ x.endsWord = true ∧ Literal.Behind c ∧
      ∀ d, l.literal.head? = some d → ¬Literal.Behind d := by
  obtain ⟨n, rfl, hn⟩ := h
  suffices hs : Spaced "auton".toList n by
    obtain ⟨x, c, y, htext, honward, hend, hc⟩ := hs l hl
    refine ⟨"auton".toList ++ x, c, y, ?_, honward, by simp, hend, hc⟩
    rw [CallMatch.text_after, htext, List.append_assoc]
  clear hl
  unfold grammar at hn
  generalize "::".toList = w at hn
  cases hn with
  | @piece _ _ x a n hx ha hn =>
    obtain rfl : a = w := ha
    cases hn with
    | @piece _ _ y b n hy hb hn =>
      obtain rfl : b = s.kind.callName.toList := hb
      cases hn with
      | @piece _ _ z c n hz hc hn =>
        obtain rfl : c = ['('] := hc
        refine .after (.after (.after (.after (.after (.after ?_)))))
        exact spaced_arguments hn _ fun _ => Text.endsWord_append (List.cons_ne_nil _ _)

theorem derives_closing : closing.DerivesWith Gap.Unblocked ⟨");".toList, []⟩ :=
  have hnil := Gap.Unblocked.nil
  .piece (p := .token [')']) hnil rfl (.piece (p := .token [';']) hnil rfl .done)

theorem derives_arguments (first : Bool) {es : List (Param × Value)} (hs : ∀ e ∈ es, Sound e)
    {rest : List Param} (hrest : ∀ p ∈ rest, p.optional = true) :
    (arguments first (es.map (·.1) ++ rest)).DerivesWith Gap.Unblocked (argumentsMatch first es) := by
  induction es generalizing first with
  | nil =>
    cases rest with
    | nil => exact derives_closing
    | cons p ps =>
      rw [List.map_nil, List.nil_append, arguments, if_pos (hrest p List.mem_cons_self)]
      exact .second derives_closing
  | cons e es ih =>
    obtain ⟨p, v⟩ := e
    rw [List.forall_mem_cons] at hs
    have hliteral : (Piece.literal p).Spells v.source := by
      show p.type.IsLiteral v.source
      rw [← show v.type = p.type from hs.1.type_eq]
      exact Value.isLiteral_source hs.1.writable
    have hblank : Gap.Unblocked [' '] := .blank (by decide) .nil
    have hseparated : (if first then Grammar.piece (.literal p) (arguments false (es.map (·.1) ++ rest))
        else .piece (.token [',']) (.piece (.literal p) (arguments false (es.map (·.1) ++ rest)))).DerivesWith
          Gap.Unblocked (argumentsMatch first ((p, v) :: es)) := by
      cases first with
      | true => exact .piece (p := .literal p) Gap.Unblocked.nil hliteral (ih false hs.2)
      | false =>
        exact .piece (p := .token [',']) Gap.Unblocked.nil rfl
          (.piece (p := .literal p) hblank hliteral (ih false hs.2))
    rw [List.map_cons, List.cons_append, arguments]
    split
    · exact .first hseparated
    · exact hseparated

end CallShape

/-- A call that is written has no comments. -/
theorem Action.unblocked_found {a : Action} (h : a.Writable) :
    (CallShape.standard a.kind).Unblocked a.found := by
  have hrest : ∀ p ∈ (CallShape.standard a.kind).params.drop
      ((CallShape.standard a.kind).writtenCount a.params), p.optional = true :=
    fun _ hp => CallShape.optional_of_mem_drop hp
  have harguments := CallShape.derives_arguments true (fun _ he => CallShape.sound_of_mem_filled h he) hrest
  rw [CallShape.map_filled_eq_take (complete_of_ofParams? a.ofParams?_params), List.take_append_drop]
    at harguments
  have hnil := Gap.Unblocked.nil
  refine ⟨_, ?_, .piece (p := .token "::".toList) hnil rfl (.piece (p := .token a.kind.callName.toList) hnil rfl
    (.piece (p := .token ['(']) hnil rfl harguments))⟩
  show CallMatch.after ("auton::" ++ a.kind.callName ++ "(").toList _ = _
  simp [Piece.before, String.toList_append]

end RoutineSync
