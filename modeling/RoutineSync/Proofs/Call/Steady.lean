import RoutineSync.Proofs.Call.Plain
/-!
Calls found in plain text: what a call is found from ends with it, its one semicolon is the last
character, no other call starts in it, and its function name is the first thing that tells calls of
two kinds apart.
-/
set_option autoImplicit false

namespace RoutineSync

theorem Piece.split?_local {p : Piece} {t a : Text} {d : Char} {r : Text}
    (h : p.split? t = some (a, d :: r)) (r' : Text) : p.split? (a ++ d :: r') = some (a, d :: r') := by
  cases p with
  | token w =>
    obtain ⟨x, -, he⟩ := Option.map_eq_some_iff.1 h
    obtain ⟨rfl, -⟩ := Prod.mk.inj he
    exact split?_token w (d :: r')
  | literal p => exact Literal.literal?_local h r'

namespace Grammar

/-- Quiet pieces with a semicolon at the end. Where something may be left out, the first character
that is solid tells whether it is. -/
inductive Steady : Grammar → Prop where
  | last : Steady (.piece (.token [';']) .done)
  | piece {p : Piece} {g : Grammar} : p.Quiet → Steady g → Steady (.piece p g)
  | either {p : Piece} {g h : Grammar} : (∀ r, p.split? (')' :: r) = none) → Steady (.piece p g) →
      Steady (.piece (.token [')']) h) → Steady (.either (.piece p g) (.piece (.token [')']) h))

theorem Steady.exists_calm {g : Grammar} {m : CallMatch} (hg : g.Steady) (h : g.Derives m)
    (hp : m.text.Plain) : ∃ body : Text, m.text = body ++ [';'] ∧ body.Calm := by
  induction hg generalizing m with
  | last =>
    cases h with
    | @piece _ _ gap a _ hgap ha h =>
      cases h
      obtain rfl : a = [';'] := ha
      have htext : (((Piece.token [';']).before [';'] .empty).after gap).text = gap ++ [';'] := rfl
      rw [htext] at hp ⊢
      exact ⟨gap, rfl, Text.calm_of_blank (hgap.blanks hp.left)⟩
  | @piece p g hq _ ih =>
    cases h with
    | @piece _ _ gap a n hgap ha h =>
      have htext : ((p.before a n).after gap).text = gap ++ (a ++ n.text) := by
        rw [CallMatch.text_after, Piece.text_before]
      rw [htext] at hp ⊢
      obtain ⟨body, hbody, hcalm⟩ := ih h hp.right.right
      refine ⟨gap ++ (a ++ body), by simp only [hbody, List.append_assoc], ?_⟩
      have hgap' := Text.calm_of_blank (hgap.blanks hp.left)
      exact hgap'.append ((hq.calm a ha hp.right.left.no_quote).append hcalm)
  | either _ _ _ ih1 ih2 =>
    cases h with
    | first h => exact ih1 h hp
    | second h => exact ih2 h hp

/-- What is read from plain text is read whatever comes behind it. -/
theorem Steady.read_append {g : Grammar} {t : Text} {m : CallMatch} (hg : g.Steady) (hp : t.Plain)
    (h : g.read .stop t = some m) (r : Text) : g.read .stop (m.text ++ r) = some m := by
  induction hg generalizing t m with
  | last =>
    obtain ⟨gap, x, n, rfl, hgap, hread, rfl⟩ := Gap.exists_of_read h
    obtain ⟨a, y, n, rfl, hs, hn, rfl⟩ := Piece.exists_of_read hread
    obtain rfl : a = [';'] := Piece.accepts_of_split? hs
    cases hn
    have hassoc : ((((Piece.token [';']).before [';'] .empty).after gap).text) ++ r
        = gap ++ ';' :: r := by
      simp [Piece.text_before, CallMatch.empty]
    have hblank : ∀ c ∈ gap, Text.isBlank c = true := Gap.Fills.blanks hgap hp.left
    rw [hassoc, read, Gap.read_blanks hblank, Gap.read_solid ⟨by decide, by decide⟩]
    rfl
  | @piece p g hq hg ih =>
    obtain ⟨gap, x, n, rfl, hgap, hread, rfl⟩ := Gap.exists_of_read h
    obtain ⟨a, y, n, rfl, hs, hn, rfl⟩ := Piece.exists_of_read hread
    have hy : y.Plain := hp.right.right
    have honward := ih hy hn
    obtain ⟨c, a', rfl, hsolid⟩ := hq.solid a (Piece.accepts_of_split? hs)
    -- some text follows the piece, so that the piece is read up to the same place
    obtain ⟨d, rest, hd⟩ : ∃ d rest, n.text = d :: rest := by
      obtain ⟨z, hz⟩ := sound_read Reader.sound_stop g y n hn
      obtain ⟨body, hbody, -⟩ := hg.exists_calm (derives_of_read hn)
        (hy.part ⟨[], z, by rw [List.nil_append, hz]⟩)
      cases body with
      | nil => exact ⟨_, _, hbody⟩
      | cons d body => exact ⟨_, _, hbody⟩
    obtain ⟨z, rfl⟩ := sound_read Reader.sound_stop g y n hn
    rw [hd, List.cons_append] at hs
    have hsplit := Piece.split?_local hs (rest ++ r)
    rw [← List.cons_append, ← hd] at hsplit
    have hblank : ∀ b ∈ gap, Text.isBlank b = true := Gap.Fills.blanks hgap hp.left
    rw [CallMatch.text_after, Piece.text_before, List.append_assoc, List.append_assoc, read,
      Gap.read_blanks hblank, List.cons_append, Gap.read_solid hsolid, ← List.cons_append,
      Piece.read, hsplit, Option.bind_some]
    dsimp only
    rw [honward]
    rfl
  | @either p g k hno _ hk ih1 ih2 =>
    rcases Option.or_eq_some_iff.1 h with h | ⟨-, h⟩
    · have := ih1 hp h
      show ((Grammar.piece p g).read .stop _).or _ = _
      rw [this]
      rfl
    · have hsecond := ih2 hp h
      obtain ⟨gap, x, n, rfl, hgap, hread, rfl⟩ := Gap.exists_of_read h
      obtain ⟨a, y, n, rfl, hs, hn, rfl⟩ := Piece.exists_of_read hread
      obtain rfl : a = [')'] := Piece.accepts_of_split? hs
      have hblank : ∀ c ∈ gap, Text.isBlank c = true := Gap.Fills.blanks hgap hp.left
      have hfirst : (Grammar.piece p g).read .stop (gap ++ ')' :: (n.text ++ r)) = none := by
        rw [read, Gap.read_blanks hblank, Gap.read_solid ⟨by decide, by decide⟩, Piece.read,
          hno]
        rfl
      show ((Grammar.piece p g).read .stop _).or ((Grammar.piece _ k).read .stop _) = _
      rw [hsecond]
      have htext : (((Piece.token [')']).before [')'] n).after gap).text ++ r
          = gap ++ ')' :: (n.text ++ r) := by
        simp [Piece.text_before]
      rw [htext, hfirst]
      rfl

end Grammar

namespace CallShape

theorem quiet_token {w : Text} (h : ∃ c r, w = c :: r ∧ Text.Solid c) (hw : w.Calm) :
    (Piece.token w).Quiet where
  solid a ha := by
    obtain rfl : a = w := ha
    exact h
  calm a ha _ := by
    obtain rfl : a = w := ha
    exact hw

theorem literal?_bracket (type : ValueType) (r : Text) : type.literal? (')' :: r) = none := by
  have hd : Literal.digits (')' :: r) = ([], ')' :: r) :=
    Literal.digits_append_cons (w := []) (fun _ h => absurd h List.not_mem_nil) (by decide) r
  cases type with
  | float =>
    show Literal.float? (')' :: r) = none
    rw [Literal.float?_eq]
    show (Literal.number? (')' :: r)).map _ = _
    unfold Literal.number?
    rw [hd]
    rfl
  | int =>
    show Literal.int? (')' :: r) = none
    unfold Literal.int?
    show (if (Literal.digits (')' :: r)).1.isEmpty then none else _) = _
    rw [hd]
    rfl
  | bool => rfl
  | text => rfl

theorem steady_closing : closing.Steady :=
  .piece (quiet_token ⟨_, _, rfl, by decide, by decide⟩ ⟨by decide, by decide, by decide⟩) .last

theorem steady_arguments (first : Bool) (ps : List Param) : (arguments first ps).Steady := by
  induction ps generalizing first with
  | nil => exact steady_closing
  | cons p ps ih =>
    have hargument : (Grammar.piece (.literal p) (arguments false ps)).Steady :=
      .piece (Piece.quiet_literal p) (ih false)
    have hcomma : (Piece.token [',']).Quiet :=
      quiet_token ⟨_, _, rfl, by decide, by decide⟩ ⟨by decide, by decide, by decide⟩
    rw [arguments]
    cases first with
    | true =>
      rw [if_pos rfl]
      split
      · exact .either (literal?_bracket _) hargument steady_closing
      · exact hargument
    | false =>
      rw [if_neg Bool.false_ne_true]
      split
      · exact .either (fun _ => rfl) (.piece hcomma hargument) steady_closing
      · exact .piece hcomma hargument

theorem quiet_name (kind : ActionKind) : (Piece.token kind.callName.toList).Quiet := by
  cases kind <;>
    exact quiet_token ⟨_, _, rfl, by decide, by decide⟩ ⟨by decide, by decide, by decide⟩

theorem steady_grammar (s : CallShape) : s.grammar.Steady :=
  .piece (quiet_token ⟨_, _, rfl, by decide, by decide⟩ ⟨by decide, by decide, by decide⟩)
    (.piece (quiet_name s.kind)
      (.piece (quiet_token ⟨_, _, rfl, by decide, by decide⟩ ⟨by decide, by decide, by decide⟩)
        (steady_arguments true s.params)))

/-- A call that is found in plain text: nothing inside it looks like the end of a call or like the
start of one. -/
structure Found (s : CallShape) (t : Text) (m : CallMatch) : Prop where
  found : s.match? t = some m
  plain : t.Plain

namespace Found
variable {s : CallShape} {t : Text} {m : CallMatch}

theorem exists_calm (h : s.Found t m) :
    ∃ body : Text, m.text = "auton".toList ++ body ++ [';'] ∧ body.Calm := by
  obtain ⟨z, hz⟩ := prefix_of_match? h.found
  have hp := h.plain
  rw [← hz] at hp
  obtain ⟨n, rfl, hn⟩ := derives_of_match? h.found
  rw [CallMatch.text_after] at hp ⊢
  obtain ⟨body, hbody, hcalm⟩ := s.steady_grammar.exists_calm hn hp.left.right
  exact ⟨body, by rw [hbody, List.append_assoc], hcalm⟩

theorem opens (h : s.Found t m) : "auton".toList <+: t := opens_of_match? h.found

theorem append (h : s.Found t m) (r : Text) : s.match? (m.text ++ r) = some m := by
  obtain ⟨a, x, n, rfl, hs, hn, rfl⟩ := Piece.exists_of_read h.found
  obtain rfl : a = "auton".toList := Piece.accepts_of_split? hs
  have hread := s.steady_grammar.read_append h.plain.right hn r
  rw [Piece.text_before, List.append_assoc, match?, Piece.read, opening, Piece.split?_token,
    Option.bind_some]
  dsimp only
  rw [hread]
  rfl

theorem eq_nil_of_semicolon (h : s.Found t m) {x z : Text} (hx : x.getLast? = some ';')
    (hm : m.text = x ++ z) : z = [] := by
  obtain ⟨body, hbody, hcalm⟩ := h.exists_calm
  cases hz : z.getLast? with
  | none => exact List.getLast?_eq_none_iff.1 hz
  | some c =>
    obtain ⟨z', rfl⟩ := List.getLast?_eq_some_iff.1 hz
    rw [hbody, ← List.append_assoc] at hm
    have hinit := (List.append_inj' hm rfl).1
    have hmem : ';' ∈ "auton".toList ++ body := by
      rw [hinit]
      exact List.mem_append_left _ (List.mem_of_getLast? hx)
    rcases List.mem_append.1 hmem with hmem | hmem
    · exact absurd hmem (by decide)
    · exact absurd hmem hcalm.unended

/-- No call starts inside another one. -/
theorem not_opens_inside (h : s.Found t m) {x z r : Text} (hx : x ≠ []) (hz : z ≠ [])
    (hm : m.text = x ++ z) (hr : z <+: r) : ¬"auton".toList <+: r := by
  intro ha
  obtain ⟨body, hbody, hcalm⟩ := h.exists_calm
  rcases List.prefix_or_prefix_of_prefix hr ha with hza | haz
  · have hlast : z.getLast? = some ';' := by
      have := congrArg List.getLast? (hm.symm.trans hbody)
      rwa [List.getLast?_append_of_ne_nil _ hz, List.getLast?_concat] at this
    exact absurd (hza.subset (List.mem_of_getLast? hlast)) (by decide)
  · obtain ⟨y, rfl⟩ := haz
    cases x with
    | nil => exact hx rfl
    | cons a x =>
      have hchain : List.IsChain (fun a b => a = 'a' → b ≠ 'u')
          ("uton".toList ++ (body ++ [';'])) := by
        refine List.IsChain.append (by decide) (hcalm.pairs.append (.singleton _) ?_) ?_
        · simp
        · intro c hc b _ h
          obtain rfl : 'n' = c := Option.some.inj hc
          exact absurd h (by decide)
      have htail : x ++ ("auton".toList ++ y) = "uton".toList ++ (body ++ [';']) := by
        have := hm.symm.trans hbody
        exact (List.cons.inj this).2
      have hinside : ['a', 'u'] <:+: "uton".toList ++ (body ++ [';']) := by
        rw [← htail]
        exact ⟨x, "ton".toList ++ y, by simp⟩
      obtain ⟨y, z, hyz⟩ := hinside
      rw [← hyz] at hchain
      exact absurd hchain.left_of_append.right_of_append (by decide)

theorem exists_name (h : s.Found t m) :
    ∃ g g' r : Text, (∀ c ∈ g, Text.isBlank c = true) ∧ (∀ c ∈ g', Text.isBlank c = true) ∧
      t = "auton".toList ++ (g ++ ("::".toList ++ (g' ++ (s.kind.callName.toList ++ r)))) := by
  obtain ⟨a, x, n, rfl, hs, hn, rfl⟩ := Piece.exists_of_read h.found
  obtain rfl : a = "auton".toList := Piece.accepts_of_split? hs
  have hp := h.plain.right
  obtain ⟨g, x, n, rfl, hgap, hread, rfl⟩ := Gap.exists_of_read hn
  obtain ⟨a, x, n, rfl, hs', hn', rfl⟩ := Piece.exists_of_read hread
  obtain rfl : a = "::".toList := Piece.accepts_of_split? hs'
  obtain ⟨g', x, n, rfl, hgap', hread', rfl⟩ := Gap.exists_of_read hn'
  obtain ⟨a, x, n, rfl, hs'', hn'', rfl⟩ := Piece.exists_of_read hread'
  obtain rfl : a = s.kind.callName.toList := Piece.accepts_of_split? hs''
  exact ⟨g, g', x, Gap.Fills.blanks hgap hp.left, Gap.Fills.blanks hgap' hp.right.right.left, rfl⟩

end Found

theorem eq_of_prefix_name {k k' : ActionKind} (h : k.callName.toList <+: k'.callName.toList) :
    k = k' := by
  have hall : ∀ k ∈ ActionKind.all, ∀ k' ∈ ActionKind.all,
      k.callName.toList <+: k'.callName.toList → k = k' := by decide
  exact hall k (ActionKind.mem_all k) k' (ActionKind.mem_all k') h

/-- No function name starts another one. -/
theorem split?_name_of_ne {k k' : ActionKind} (h : k ≠ k') (t : Text) :
    (Piece.token k.callName.toList).split? (k'.callName.toList ++ t) = none := by
  rw [Piece.split?, Option.map_eq_none_iff, Option.eq_none_iff_forall_ne_some]
  intro u hu
  rcases List.prefix_or_prefix_of_prefix ⟨u, (Text.afterPrefix?_eq_some_iff.1 hu).symm⟩
    (List.prefix_append k'.callName.toList t) with hk | hk
  · exact h (eq_of_prefix_name hk)
  · exact h (eq_of_prefix_name hk).symm

/-- At one place of plain text calls of one kind only are found. -/
theorem Found.kind_eq {k k' : ActionKind} {t : Text} {m m' : CallMatch}
    (h : (standard k).Found t m) (h' : (standard k').Found t m') : k = k' := by
  obtain ⟨g, f, r, hg, hf, ht⟩ := h.exists_name
  obtain ⟨g', f', r', hg', hf', ht'⟩ := h'.exists_name
  have h1 := List.append_cancel_left (ht.symm.trans ht')
  have h2 : "::".toList ++ _ = "::".toList ++ _ :=
    Text.blank_inj hg hg' (by decide) (by decide) h1
  have h3 := List.append_cancel_left h2
  obtain ⟨c, w, hc, hsolid⟩ := (quiet_name k).solid _ rfl
  obtain ⟨c', w', hc', hsolid'⟩ := (quiet_name k').solid _ rfl
  have hk : (standard k).kind.callName.toList = c :: w := hc
  have hk' : (standard k').kind.callName.toList = c' :: w' := hc'
  rw [hk, hk'] at h3
  have h4 : (c :: w) ++ r = (c' :: w') ++ r' :=
    Text.blank_inj hf hf' hsolid.not_blank hsolid'.not_blank h3
  rw [← hc, ← hc'] at h4
  have hleft : k.callName.toList <+: k'.callName.toList ++ r' := h4 ▸ List.prefix_append _ _
  rcases List.prefix_or_prefix_of_prefix hleft (List.prefix_append _ r') with hkk | hkk
  · exact eq_of_prefix_name hkk
  · exact (eq_of_prefix_name hkk).symm

end CallShape

end RoutineSync
