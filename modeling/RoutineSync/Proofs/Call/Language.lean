import RoutineSync.Proofs.Call.Spelling
import RoutineSync.Proofs.Call.Steady
/-!
The language of calls: which texts are a call from their first character to their last one. The
reader goes back into a block comment where the call does not go on behind it, so that it knows of no
way to tell its first closing mark from a later one.
-/
set_option autoImplicit false

namespace RoutineSync

namespace Gap

/-- Texts between the tokens of a call in which a block comment ends at its first closing mark. -/
inductive Neat : Text → Prop where
  | nil : Neat []
  | blank {c : Char} {g : Text} : Text.isBlank c = true → Neat g → Neat (c :: g)
  | line {b g : Text} : '\n' ∉ b → Neat g → Neat ('/' :: '/' :: (b ++ '\n' :: g))
  | block {b g : Text} : ¬['*', '/'] <:+: b → Neat g → Neat ('/' :: '*' :: (b ++ '*' :: '/' :: g))

theorem Neat.fills {g : Text} (h : Neat g) : Fills g := by
  induction h with
  | nil => exact .nil
  | blank hc _ ih => exact .blank hc ih
  | line hb _ ih => exact .line hb ih
  | block _ _ ih => exact .block ih

/-- No block comment is closed behind the place where one is closed already. -/
def ClosedOnce (t : Text) : Prop := ∀ x ∈ t.tails, ['*', '/'] <+: x → ¬['*', '/'] <:+: x.drop 2

instance (t : Text) : Decidable (ClosedOnce t) :=
  inferInstanceAs (Decidable (∀ x ∈ t.tails, ['*', '/'] <+: x → ¬['*', '/'] <:+: x.drop 2))

theorem ClosedOnce.part {t x : Text} (h : ClosedOnce t) (hx : x <:+: t) : ClosedOnce x := by
  intro y hy hopen hclosed
  obtain ⟨u, v, rfl⟩ := hx
  obtain ⟨w, rfl⟩ := (List.mem_tails _ _).1 hy
  obtain ⟨z, rfl⟩ := hopen
  refine h (['*', '/'] ++ (z ++ v)) ((List.mem_tails _ _).2 ⟨u ++ w, by simp⟩)
    (List.prefix_append _ _) ?_
  exact hclosed.trans (List.prefix_append z v).isInfix

theorem Fills.neat {g : Text} (h : Fills g) (hg : ClosedOnce g) : Neat g := by
  induction h with
  | nil => exact .nil
  | @blank c g hc _ ih => exact .blank hc (ih (hg.part (List.suffix_cons c g).isInfix))
  | @line b g hb _ ih =>
    exact .line hb (ih (hg.part ⟨'/' :: '/' :: (b ++ ['\n']), [], by simp⟩))
  | @block b g _ ih =>
    refine .block ?_ (ih (hg.part ⟨'/' :: '*' :: (b ++ ['*', '/']), [], by simp⟩))
    -- the mark inside the comment is not the one that ends it
    rintro ⟨x, y, rfl⟩
    exact hg (['*', '/'] ++ (y ++ '*' :: '/' :: g)) ((List.mem_tails _ _).2 ⟨'/' :: '*' :: x, by simp⟩)
      (List.prefix_append _ _) ⟨y, g, by simp⟩

variable {k : Reader}

theorem isSome_read_line {b : Text} (hb : '\n' ∉ b) (x : Text) :
    (read k .line (b ++ '\n' :: x)).isSome = (read k .between x).isSome := by
  induction b with
  | nil => simp [read]
  | cons c b ih =>
    simp only [List.mem_cons, not_or] at hb
    rw [List.cons_append, read, if_neg (Ne.symm hb.1), Option.isSome_map, ih hb.2]

/-- A block comment can go on behind every character. -/
theorem isSome_read_block_cons (c : Char) {x : Text} (h : (read k .block x).isSome) :
    (read k .block (c :: x)).isSome := by
  by_cases hclose : ∃ r, c = '*' ∧ x = '/' :: r
  · obtain ⟨r, rfl, rfl⟩ := hclose
    rw [read, Option.isSome_or, Option.isSome_map, Option.isSome_map, h, Bool.or_true]
  · rw [read, Option.isSome_map, h]
    exact fun r hc hx => hclose ⟨r, hc, hx⟩

theorem isSome_read_block (b : Text) {x : Text} (h : (read k .between x).isSome) :
    (read k .block (b ++ '*' :: '/' :: x)).isSome := by
  induction b with
  | nil => rw [List.nil_append, read, Option.isSome_or, Option.isSome_map, h, Bool.true_or]
  | cons c b ih => exact isSome_read_block_cons c ih

/-- What is wanted is found behind every gap, where it starts with a solid character. -/
theorem isSome_read {g : Text} (hg : Fills g) {c : Char} (hc : Text.Solid c) {r : Text}
    (h : (k (c :: r)).isSome) : (read k .between (g ++ c :: r)).isSome := by
  induction hg with
  | nil =>
    rw [List.nil_append, read_solid hc]
    exact h
  | @blank d g hd _ ih =>
    have := read_blanks (k := k) (g := [d]) (by simpa using hd) (g ++ c :: r)
    rw [List.singleton_append] at this
    rw [List.cons_append, this, Option.isSome_map]
    exact ih
  | @line b g hb _ ih =>
    have hassoc : '/' :: '/' :: (b ++ '\n' :: g) ++ c :: r
        = '/' :: '/' :: (b ++ '\n' :: (g ++ c :: r)) := by simp
    rw [hassoc, read, Option.isSome_map, isSome_read_line hb]
    exact ih
  | @block b g _ ih =>
    have hassoc : '/' :: '*' :: (b ++ '*' :: '/' :: g) ++ c :: r
        = '/' :: '*' :: (b ++ '*' :: '/' :: (g ++ c :: r)) := by simp
    rw [hassoc, read, Option.isSome_map]
    exact isSome_read_block b ih

/-- Skips a gap whose comments are closed once. -/
def skip : State → Text → Text
  | .between, '/' :: '/' :: r => skip .line r
  | .between, '/' :: '*' :: r => skip .block r
  | .between, c :: r => if Text.isBlank c then skip .between r else c :: r
  | .line, c :: r => skip (if c = '\n' then .between else .line) r
  | .block, '*' :: '/' :: r => skip .between r
  | .block, _ :: r => skip .block r
  | _, [] => []

theorem skip_line {b : Text} (hb : '\n' ∉ b) (x : Text) :
    skip .line (b ++ '\n' :: x) = skip .between x := by
  induction b with
  | nil => simp [skip]
  | cons c b ih =>
    simp only [List.mem_cons, not_or] at hb
    rw [List.cons_append, skip, if_neg (Ne.symm hb.1), ih hb.2]

theorem skip_block {b : Text} (hb : ¬['*', '/'] <:+: b) (x : Text) :
    skip .block (b ++ '*' :: '/' :: x) = skip .between x := by
  induction b with
  | nil => rw [List.nil_append, skip]
  | cons c b ih =>
    rw [List.cons_append, skip, ih fun h => hb (h.trans (List.suffix_cons c b).isInfix)]
    rintro r rfl hr
    cases b with
    | nil => exact absurd (List.cons.inj hr).1 (by decide)
    | cons d b =>
      obtain rfl := (List.cons.inj hr).1
      exact hb (List.prefix_append ['*', '/'] b).isInfix

theorem Neat.skip_append {g : Text} (h : Neat g) {c : Char} (hc : Text.Solid c) (r : Text) :
    skip .between (g ++ c :: r) = c :: r := by
  induction h with
  | nil =>
    rw [List.nil_append, skip, if_neg (by simp [hc.not_blank])]
    · exact fun _ h => absurd h hc.not_slash
    · exact fun _ h => absurd h hc.not_slash
  | @blank d g hd _ ih =>
    have hslash : d ≠ '/' := by
      rintro rfl
      exact absurd hd (by decide)
    rw [List.cons_append, skip, if_pos hd, ih]
    · exact fun _ h => absurd h hslash
    · exact fun _ h => absurd h hslash
  | @line b g hb _ ih =>
    have hassoc : '/' :: '/' :: (b ++ '\n' :: g) ++ c :: r
        = '/' :: '/' :: (b ++ '\n' :: (g ++ c :: r)) := by simp
    rw [hassoc, skip, skip_line hb, ih]
  | @block b g hb _ ih =>
    have hassoc : '/' :: '*' :: (b ++ '*' :: '/' :: g) ++ c :: r
        = '/' :: '*' :: (b ++ '*' :: '/' :: (g ++ c :: r)) := by simp
    rw [hassoc, skip, skip_block hb, ih]

theorem Fills.eq_nil_or_cons {g : Text} (h : Fills g) :
    g = [] ∨ ∃ c r, g = c :: r ∧ (Text.isBlank c = true ∨ c = '/') := by
  cases h with
  | nil => exact .inl rfl
  | blank hc _ => exact .inr ⟨_, _, rfl, .inl hc⟩
  | line _ _ => exact .inr ⟨_, _, rfl, .inr rfl⟩
  | block _ => exact .inr ⟨_, _, rfl, .inr rfl⟩

end Gap

namespace Piece

def Spells : Piece → Text → Prop
  | .token w, a => a = w
  | .literal p, a => p.type.IsLiteral a

theorem spells_of_split? {p : Piece} {t a r : Text} (h : p.split? t = some (a, r)) : p.Spells a := by
  cases p with
  | token w => exact accepts_of_split? h
  | literal p => exact Literal.isLiteral_of_literal? h

/-- The pieces one behind the other, with a gap before each of them. -/
inductive Spaced (gap : Text → Prop) : List Piece → Text → Prop where
  | nil : Spaced gap [] []
  | cons {p : Piece} {ps : List Piece} {g a r : Text} : gap g → p.Spells a → Spaced gap ps r →
      Spaced gap (p :: ps) (g ++ (a ++ r))

theorem Spaced.imp {gap gap' : Text → Prop} {ps : List Piece} {t : Text} (h : Spaced gap ps t)
    (himp : ∀ g, g <:+: t → gap g → gap' g) : Spaced gap' ps t := by
  induction h with
  | nil => exact .nil
  | @cons p ps g a r hg ha _ ih =>
    refine .cons (himp g (List.prefix_append _ _).isInfix hg) ha (ih fun g' hg' => himp g' ?_)
    exact hg'.trans ⟨g ++ a, [], by simp⟩

theorem Spaced.skip_token {w : Text} {ps : List Piece} {t : Text} (h : Spaced Gap.Neat (.token w :: ps) t)
    (hw : ∃ c r, w = c :: r ∧ Text.Solid c) :
    ∃ x, Gap.skip .between t = w ++ x ∧ Spaced Gap.Neat ps x := by
  cases h with
  | @cons _ _ g a x hg ha hx =>
    obtain ⟨c, r, rfl, hc⟩ := hw
    obtain rfl : a = c :: r := ha
    exact ⟨x, hg.skip_append hc _, hx⟩

/-- Tokens start with a solid character, and a token that is not part of a number follows each
literal. -/
def Firm : List Piece → Prop
  | [] => True
  | .token w :: ps => (∃ c r, w = c :: r ∧ Text.Solid c) ∧ Firm ps
  | .literal _ :: ps => (∃ w qs, ps = .token w :: qs ∧ ∃ c r, w = c :: r ∧ ¬Literal.IsNumeral c) ∧ Firm ps

/-- Behind a literal comes a gap or a token, so nothing that goes on with the literal. -/
theorem Spaced.apart {w : Text} {ps : List Piece} {t : Text} (h : Spaced Gap.Fills (.token w :: ps) t)
    (hw : ∃ c r, w = c :: r ∧ ¬Literal.IsNumeral c) (r : Text) : Literal.Apart (t ++ r) := by
  cases h with
  | @cons _ _ g a x hg ha _ =>
    obtain rfl : a = w := ha
    obtain ⟨c, w, rfl, hc⟩ := hw
    intro d hd
    rcases hg.eq_nil_or_cons with rfl | ⟨e, g, rfl, he⟩
    · obtain rfl := Option.some.inj hd
      exact hc
    · obtain rfl := Option.some.inj hd
      intro hnumeral
      rcases he with he | rfl
      · have := hnumeral.solid.not_blank
        rw [he] at this
        exact Bool.false_ne_true this.symm
      · exact hnumeral.solid.not_slash rfl

theorem split?_append {p : Piece} {ps : List Piece} {a t : Text} (hfirm : Firm (p :: ps))
    (ha : p.Spells a) (ht : Spaced Gap.Fills ps t) (r : Text) :
    p.split? (a ++ (t ++ r)) = some (a, t ++ r) := by
  cases p with
  | token w =>
    obtain rfl : a = w := ha
    exact split?_token a (t ++ r)
  | literal p =>
    obtain ⟨⟨w, qs, rfl, hw⟩, -⟩ := hfirm
    exact Literal.literal?_append ha (ht.apart hw r)

theorem exists_solid {p : Piece} {ps : List Piece} {a : Text} (hfirm : Firm (p :: ps))
    (ha : p.Spells a) : ∃ c r, a = c :: r ∧ Text.Solid c := by
  cases p with
  | token w =>
    obtain rfl : a = w := ha
    exact hfirm.1
  | literal p =>
    refine (quiet_literal p).solid a ⟨a ++ [], [], Literal.literal?_append ha ?_⟩
    exact fun c hc => absurd hc (by simp)

theorem firm_tail {p : Piece} {ps : List Piece} (h : Firm (p :: ps)) : Firm ps := by
  cases p with
  | token w => exact h.2
  | literal p => exact h.2

end Piece

namespace Grammar

/-- The rows of pieces that a grammar allows. -/
inductive Row : Grammar → List Piece → Prop where
  | done : Row .done []
  | piece {p : Piece} {g : Grammar} {ps : List Piece} : Row g ps → Row (.piece p g) (p :: ps)
  | first {g h : Grammar} {ps : List Piece} : Row g ps → Row (.either g h) ps
  | second {g h : Grammar} {ps : List Piece} : Row h ps → Row (.either g h) ps

variable {k : Reader}

theorem exists_row_of_read {g : Grammar} {t : Text} (h : (g.read k t).isSome) :
    ∃ ps a r, t = a ++ r ∧ g.Row ps ∧ Piece.Spaced Gap.Fills ps a ∧ (k r).isSome := by
  induction g generalizing t with
  | done => exact ⟨[], [], t, rfl, .done, .nil, h⟩
  | piece p g ih =>
    obtain ⟨m, hm⟩ := Option.isSome_iff_exists.1 h
    obtain ⟨gap, r, n, rfl, hgap, hp, -⟩ := Gap.exists_of_read hm
    obtain ⟨a, r, n, rfl, hs, hr, -⟩ := Piece.exists_of_read hp
    obtain ⟨ps, x, r, rfl, hrow, hx, hk⟩ := ih (Option.isSome_iff_exists.2 ⟨n, hr⟩)
    exact ⟨p :: ps, gap ++ (a ++ x), r, by simp only [List.append_assoc], .piece hrow,
      .cons hgap (Piece.spells_of_split? hs) hx, hk⟩
  | either first second ih1 ih2 =>
    rw [read, Option.isSome_or, Bool.or_eq_true] at h
    rcases h with h | h
    · obtain ⟨ps, a, r, ht, hrow, h⟩ := ih1 h
      exact ⟨ps, a, r, ht, .first hrow, h⟩
    · obtain ⟨ps, a, r, ht, hrow, h⟩ := ih2 h
      exact ⟨ps, a, r, ht, .second hrow, h⟩

theorem Row.isSome_read {g : Grammar} {ps : List Piece} {a r : Text} (h : g.Row ps)
    (hfirm : Piece.Firm ps) (ha : Piece.Spaced Gap.Fills ps a) (hk : (k r).isSome) :
    (g.read k (a ++ r)).isSome := by
  induction h generalizing a with
  | done =>
    cases ha
    exact hk
  | @piece p g ps _ ih =>
    cases ha with
    | @cons _ _ gap x t hgap hx ht =>
      obtain ⟨c, y, rfl, hc⟩ := Piece.exists_solid hfirm hx
      have hassoc : gap ++ (c :: y ++ t) ++ r = gap ++ c :: (y ++ (t ++ r)) := by simp
      rw [hassoc, read]
      refine Gap.isSome_read hgap hc ?_
      rw [← List.cons_append, Piece.read, Piece.split?_append hfirm hx ht r, Option.bind_some,
        Option.isSome_map]
      exact ih (Piece.firm_tail hfirm) ht
  | first _ ih =>
    rw [read, Option.isSome_or, ih hfirm ha, Bool.true_or]
  | second _ ih =>
    rw [read, Option.isSome_or, ih hfirm ha, Bool.or_true]

@[simp] theorem row_done_iff {ps : List Piece} : Row .done ps ↔ ps = [] :=
  ⟨fun h => by cases h; rfl, fun h => h ▸ .done⟩

@[simp] theorem row_piece_iff {p : Piece} {g : Grammar} {ps : List Piece} :
    Row (.piece p g) ps ↔ ∃ qs, ps = p :: qs ∧ g.Row qs :=
  ⟨fun h => by cases h with | piece h => exact ⟨_, rfl, h⟩, fun ⟨_, he, h⟩ => he ▸ .piece h⟩

@[simp] theorem row_either_iff {g h : Grammar} {ps : List Piece} :
    Row (.either g h) ps ↔ g.Row ps ∨ h.Row ps :=
  ⟨fun hr => by
    cases hr with
    | first hr => exact .inl hr
    | second hr => exact .inr hr, fun hr => hr.elim .first .second⟩

end Grammar

def Reader.finish : Reader := fun t => if t.isEmpty then some .empty else none

namespace CallShape

/-- Literals with commas between them, and with one before the first where it is not the first. -/
def separated : Bool → List Param → List Piece
  | _, [] => []
  | first, p :: ps => (if first then [] else [.token [',']]) ++ .literal p :: separated false ps

theorem separated_true (ps : List Param) :
    separated true ps = (ps.map Piece.literal).intersperse (.token [',']) := by
  have hfalse : ∀ p ps, Piece.literal p :: separated false ps
      = ((p :: ps).map Piece.literal).intersperse (.token [',']) := by
    intro p ps
    induction ps generalizing p with
    | nil => rfl
    | cons q ps ih =>
      rw [separated, ih q]
      rfl
  cases ps with
  | nil => rfl
  | cons p ps => exact hfalse p ps

/-- The pieces of a call behind its first token, with arguments for `ps`. -/
def pieces (kind : ActionKind) (ps : List Param) : List Piece :=
  [.token "::".toList, .token kind.callName.toList, .token ['(']] ++
    (ps.map Piece.literal).intersperse (.token [',']) ++ [.token [')'], .token [';']]

/-- A call of a kind, with arguments for all parameters that are required and for the first ones, any
number of them, of those that are not. -/
def IsCall (gap : Text → Prop) (kind : ActionKind) (t : Text) : Prop :=
  ∃ os r, os <+: kind.declared.filter (·.optional) ∧ t = "auton".toList ++ r ∧
    Piece.Spaced gap (pieces kind (kind.declared.filter (!·.optional) ++ os)) r

theorem IsCall.imp {gap gap' : Text → Prop} {kind : ActionKind} {t : Text} (h : IsCall gap kind t)
    (himp : ∀ g, g <:+: t → gap g → gap' g) : IsCall gap' kind t := by
  obtain ⟨os, r, hos, rfl, hr⟩ := h
  exact ⟨os, r, hos, rfl, hr.imp fun g hg => himp g (hg.trans (List.suffix_append _ r).isInfix)⟩

theorem row_closing_iff {row : List Piece} : closing.Row row ↔ row = [.token [')'], .token [';']] := by
  rw [closing]
  simp

theorem row_argument_iff {first : Bool} {p : Param} {g : Grammar} {row : List Piece} :
    (if first then Grammar.piece (.literal p) g
      else .piece (.token [',']) (.piece (.literal p) g)).Row row ↔
    ∃ r, row = (if first then [] else [.token [',']]) ++ .literal p :: r ∧ g.Row r := by
  cases first with
  | true => simp
  | false => simp

theorem row_arguments_iff {first : Bool} {ps : List Param} {row : List Piece} :
    (arguments first ps).Row row ↔ ∃ qs rest, ps = qs ++ rest ∧
      (∀ p ∈ rest.head?, p.optional = true) ∧
      row = separated first qs ++ [.token [')'], .token [';']] := by
  induction ps generalizing first row with
  | nil =>
    rw [arguments, row_closing_iff]
    constructor
    · rintro rfl
      exact ⟨[], [], rfl, by simp, rfl⟩
    · rintro ⟨qs, rest, hnil, -, rfl⟩
      rw [(List.append_eq_nil_iff.1 hnil.symm).1, separated, List.nil_append]
  | cons p ps ih =>
    rw [arguments]
    constructor
    · intro h
      split at h
      · rename_i hoptional
        rcases Grammar.row_either_iff.1 h with h | h
        · obtain ⟨r, rfl, hr⟩ := row_argument_iff.1 h
          obtain ⟨qs, rest, rfl, hrest, rfl⟩ := ih.1 hr
          exact ⟨p :: qs, rest, rfl, hrest, by simp [separated]⟩
        · refine ⟨[], p :: ps, rfl, ?_, row_closing_iff.1 h⟩
          rintro q hq
          obtain rfl := Option.some.inj hq
          exact hoptional
      · obtain ⟨r, rfl, hr⟩ := row_argument_iff.1 h
        obtain ⟨qs, rest, rfl, hrest, rfl⟩ := ih.1 hr
        exact ⟨p :: qs, rest, rfl, hrest, by simp [separated]⟩
    · rintro ⟨qs, rest, hps, hrest, rfl⟩
      cases qs with
      | nil =>
        obtain rfl : p :: ps = rest := hps
        rw [if_pos (hrest p rfl)]
        exact .second (row_closing_iff.2 rfl)
      | cons q qs =>
        obtain ⟨rfl, rfl⟩ := List.cons.inj hps
        rw [separated, List.append_assoc, List.cons_append]
        have honward := (@ih false _).2 ⟨qs, rest, rfl, hrest, rfl⟩
        split
        · exact .first (row_argument_iff.2 ⟨_, rfl, honward⟩)
        · exact row_argument_iff.2 ⟨_, rfl, honward⟩

/-- The required parameters come first, so a call leaves out nothing but optional ones at the end. -/
theorem left_out_iff {ps qs : List Param} :
    (∃ rest, ps.filter (!·.optional) ++ ps.filter (·.optional) = qs ++ rest ∧
      ∀ p ∈ rest.head?, p.optional = true) ↔
    ∃ os, os <+: ps.filter (·.optional) ∧ qs = ps.filter (!·.optional) ++ os := by
  constructor
  · rintro ⟨rest, happend, hrest⟩
    rcases List.append_eq_append_iff.1 happend with ⟨os, rfl, hos⟩ | ⟨x, hx, rfl⟩
    · exact ⟨os, ⟨rest, hos.symm⟩, rfl⟩
    · cases x with
      | nil =>
        rw [List.append_nil] at hx
        exact ⟨[], List.nil_prefix, by rw [hx, List.append_nil]⟩
      | cons p x =>
        have hmem : p ∈ ps.filter (!·.optional) := hx ▸ List.mem_append_right _ List.mem_cons_self
        have hneed : (!p.optional) = true := (List.mem_filter.1 hmem).2
        rw [hrest p rfl] at hneed
        exact absurd hneed Bool.false_ne_true
  · rintro ⟨os, ⟨rest, hrest⟩, rfl⟩
    refine ⟨rest, by rw [List.append_assoc, hrest], fun p hp => ?_⟩
    have hmem : p ∈ ps.filter (·.optional) :=
      hrest ▸ List.mem_append_right _ (List.mem_of_mem_head? hp)
    exact (List.mem_filter.1 hmem).2

theorem row_grammar_iff {kind : ActionKind} {row : List Piece} :
    (standard kind).grammar.Row row ↔ ∃ os, os <+: kind.declared.filter (·.optional) ∧
      row = pieces kind (kind.declared.filter (!·.optional) ++ os) := by
  have hrow : (standard kind).grammar.Row row ↔ ∃ qs rest,
      kind.declared.filter (!·.optional) ++ kind.declared.filter (·.optional) = qs ++ rest ∧
      (∀ p ∈ rest.head?, p.optional = true) ∧ row = pieces kind qs := by
    show Grammar.Row (.piece _ (.piece _ (.piece _ (arguments true _)))) row ↔ _
    simp only [Grammar.row_piece_iff, row_arguments_iff, separated_true]
    constructor
    · rintro ⟨_, rfl, _, rfl, _, rfl, qs, rest, hps, hrest, rfl⟩
      exact ⟨qs, rest, hps, hrest, rfl⟩
    · rintro ⟨qs, rest, hps, hrest, rfl⟩
      exact ⟨_, rfl, _, rfl, _, rfl, qs, rest, hps, hrest, rfl⟩
  rw [hrow]
  constructor
  · rintro ⟨qs, rest, hps, hrest, rfl⟩
    obtain ⟨os, hos, rfl⟩ := left_out_iff.1 ⟨rest, hps, hrest⟩
    exact ⟨os, hos, rfl⟩
  · rintro ⟨os, hos, rfl⟩
    obtain ⟨rest, hps, hrest⟩ := left_out_iff.2 ⟨os, hos, rfl⟩
    exact ⟨_, rest, hps, hrest, rfl⟩

theorem firm_separated (first : Bool) (ps : List Param) :
    Piece.Firm (separated first ps ++ [.token [')'], .token [';']]) := by
  induction ps generalizing first with
  | nil => exact ⟨⟨_, _, rfl, by decide, by decide⟩, ⟨_, _, rfl, by decide, by decide⟩, trivial⟩
  | cons p ps ih =>
    have hbehind : Piece.Firm (.literal p :: (separated false ps ++ [.token [')'], .token [';']])) := by
      refine ⟨?_, ih false⟩
      cases ps with
      | nil => exact ⟨_, _, rfl, _, _, rfl, by unfold Literal.IsNumeral; decide⟩
      | cons q ps => exact ⟨_, _, rfl, _, _, rfl, by unfold Literal.IsNumeral; decide⟩
    cases first with
    | true => exact hbehind
    | false => exact ⟨⟨_, _, rfl, by decide, by decide⟩, hbehind⟩

theorem firm_pieces (kind : ActionKind) (ps : List Param) : Piece.Firm (pieces kind ps) := by
  obtain ⟨c, r, hname, hc⟩ := (quiet_name kind).solid _ rfl
  rw [pieces, ← separated_true, List.append_assoc]
  exact ⟨⟨_, _, rfl, by decide, by decide⟩, ⟨c, r, hname, hc⟩, ⟨_, _, rfl, by decide, by decide⟩,
    firm_separated true ps⟩

/-- Calls and nothing else are read, wherever what is wanted is found behind them. -/
theorem isSome_read_iff {kind : ActionKind} {k : Reader} {t : Text} :
    (opening.read ((standard kind).grammar.read k) t).isSome ↔
      ∃ a r, t = a ++ r ∧ IsCall Gap.Fills kind a ∧ (k r).isSome := by
  constructor
  · intro h
    obtain ⟨m, hm⟩ := Option.isSome_iff_exists.1 h
    obtain ⟨w, r, n, rfl, hs, hn, -⟩ := Piece.exists_of_read hm
    obtain rfl : w = "auton".toList := Piece.accepts_of_split? hs
    obtain ⟨ps, a, r, rfl, hrow, ha, hk⟩ :=
      Grammar.exists_row_of_read (Option.isSome_iff_exists.2 ⟨n, hn⟩)
    obtain ⟨os, hos, rfl⟩ := row_grammar_iff.1 hrow
    exact ⟨"auton".toList ++ a, r, (List.append_assoc _ _ _).symm, ⟨os, a, hos, rfl, ha⟩, hk⟩
  · rintro ⟨_, r, rfl, ⟨os, a, hos, rfl, ha⟩, hk⟩
    rw [List.append_assoc, Piece.read, opening, Piece.split?_token, Option.bind_some, Option.isSome_map]
    exact (row_grammar_iff.2 ⟨os, hos, rfl⟩).isSome_read (firm_pieces kind _) ha hk

/-- Reads a call that is the whole text. -/
def matchWhole? (s : CallShape) : Reader := opening.read (s.grammar.read .finish)

/-- A whole text is read as a call exactly if it is one, where a block comment may hold closing marks
of its own. With block comments that end at the first mark this is so of texts with one mark at most,
and every call with such comments is read. What is found at the start of a text is a call as well. -/
theorem reads_whole_iff_isCall (kind : ActionKind) (t : Text) :
    (((standard kind).matchWhole? t).isSome ↔ IsCall Gap.Fills kind t) ∧
    (IsCall Gap.Neat kind t → ((standard kind).matchWhole? t).isSome) ∧
    (Gap.ClosedOnce t → (((standard kind).matchWhole? t).isSome ↔ IsCall Gap.Neat kind t)) ∧
    (((standard kind).match? t).isSome ↔ ∃ a, a <+: t ∧ IsCall Gap.Fills kind a) := by
  have hwhole : ((standard kind).matchWhole? t).isSome ↔ IsCall Gap.Fills kind t := by
    rw [matchWhole?, isSome_read_iff]
    constructor
    · rintro ⟨a, r, rfl, ha, hr⟩
      cases r with
      | nil => rwa [List.append_nil]
      | cons c r => exact absurd hr (by simp [Reader.finish])
    · exact fun h => ⟨t, [], (List.append_nil t).symm, h, rfl⟩
  have hneat : IsCall Gap.Neat kind t → IsCall Gap.Fills kind t := fun h => h.imp fun _ _ hg => hg.fills
  refine ⟨hwhole, fun h => hwhole.2 (hneat h), fun honce => hwhole.trans ⟨fun h => ?_, hneat⟩, ?_⟩
  · exact h.imp fun g hg hfills => hfills.neat (honce.part hg)
  · rw [match?, isSome_read_iff]
    constructor
    · rintro ⟨a, r, rfl, ha, -⟩
      exact ⟨a, List.prefix_append a r, ha⟩
    · rintro ⟨a, ⟨r, rfl⟩, ha⟩
      exact ⟨a, r, rfl, ha, rfl⟩

/-- The comments of this call are closed once each, and its second argument stands between them. -/
theorem reads_whole_commented :
    Gap.ClosedOnce "auton::moveTo(1, /* x */ 2, // y\n 3);".toList ∧
    IsCall Gap.Neat .moveTo "auton::moveTo(1, /* x */ 2, // y\n 3);".toList := by
  have honce : Gap.ClosedOnce "auton::moveTo(1, /* x */ 2, // y\n 3);".toList := by decide +kernel
  exact ⟨honce, ((reads_whole_iff_isCall .moveTo _).2.2.1 honce).1 (by decide +kernel)⟩

/-- A comment is read on to a second closing mark, over what stands behind the first one. -/
theorem reads_past_closed_comment :
    ¬∀ (kind : ActionKind) (t : Text),
      ((standard kind).matchWhole? t).isSome ↔ IsCall Gap.Neat kind t := by
  intro h
  obtain ⟨os, r, hos, hr, h0⟩ :=
    (h .shoot "auton::shoot(/* a */ b */);".toList).1 (by decide +kernel)
  obtain rfl : os = [] := List.prefix_nil.1 hos
  obtain rfl : "::shoot(/* a */ b */);".toList = r := @List.append_cancel_left _ "auton".toList _ _ hr
  obtain ⟨x, hx, h1⟩ := h0.skip_token ⟨_, _, rfl, by decide, by decide⟩
  obtain rfl : "shoot(/* a */ b */);".toList = x := @List.append_cancel_left _ "::".toList _ _ hx
  obtain ⟨x, hx, h2⟩ := h1.skip_token ⟨_, _, rfl, by decide, by decide⟩
  obtain rfl : "(/* a */ b */);".toList = x := @List.append_cancel_left _ "shoot".toList _ _ hx
  obtain ⟨x, hx, h3⟩ := h2.skip_token ⟨_, _, rfl, by decide, by decide⟩
  obtain rfl : "/* a */ b */);".toList = x := @List.append_cancel_left _ ['('] _ _ hx
  -- behind the comment a letter stands in place of the closing bracket
  obtain ⟨x, hx, -⟩ := h3.skip_token ⟨_, _, rfl, by decide, by decide⟩
  have hskip : Gap.skip .between "/* a */ b */);".toList = "b */);".toList := by decide +kernel
  exact absurd (List.cons.inj (hskip.symm.trans hx)).1 (by decide)

end CallShape

end RoutineSync
